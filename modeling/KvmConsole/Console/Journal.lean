import KvmConsole.Console.Basic
import KvmConsole.Presenter

/-!
# The journal of a console

A console without a screen shows its panels in the log. The journal of some effects has the records
of the console and its panels, and those of the presenter for everything that was shown, in order.
-/

namespace KvmConsole.Presenter

/-- The records of one effect. -/
def present (p : Presenter) : Console.Effect → Presenter × List Log.Record
  | .msd (.render view) => p.renderMsd view
  | .msd (.notify message) => (p, notify message)
  | .msd (.log record) => (p, [record])
  | .msd (.startUpload _ _) | .msd (.cancelUpload _) | .msd (.sendCommand _) => (p, [])
  | .pointer (.render view) => p.renderPointer view
  | .pointer (.log record) => (p, [record])
  | .pointer (.sent _) | .pointer (.refused _) => (p, [])
  | .log record => (p, [record])

/-- The records of some effects, in order. -/
def journal (p : Presenter) : List Console.Effect → List Log.Record
  | [] => []
  | effect :: rest =>
    let (next, records) := p.present effect
    records ++ next.journal rest

end KvmConsole.Presenter
