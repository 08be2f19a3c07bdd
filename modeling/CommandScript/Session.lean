import CommandScript.Command.Record
import CommandScript.Settings
import CommandScript.Template

/-!
# Sessions

A session holds a text and a list of commands, and goes through steps that
change them or look at them.  A step that fails leaves the session as it was.
-/

namespace CommandScript

structure Session where
  text : String := ""
  commands : List Command := []

/-- What can be done in a session. -/
inductive Step where
  /-- Replaces the text. -/
  | setText (text : String)
  /-- Adds to the end of the text. -/
  | appendText (text : String)
  /-- Adds a filled template to the end of the text. -/
  | appendTemplate (escapeBreaks : Bool) (segments : List String)
      (values : List Filling)
  /-- Replaces the text by that of the commands. -/
  | writeCommands (style : StyleRequest)
  /-- Shows the kinds of the tokens of the text. -/
  | showKinds
  /-- Replaces the commands by those of the text. -/
  | readCommands (maxDepth : Option Setting)
  /-- Replaces the commands by the one command of the text. -/
  | readCommand (maxDepth : Option Setting)
  /-- Adds a command to the end of the commands. -/
  | push (record : Record)
  /-- Puts all commands below a new one. -/
  | wrap (name : String) (args : List String) (options : List OptionFields)
  /-- Replaces the commands by those below them. -/
  | unwrap

inductive View where
  | text (text : String)
  | kinds (kinds : List Kind)
  | commands (records : List Record)

namespace Session

/-- The session with another text, which is shown. -/
def showText (session : Session) (text : String) : Session × View :=
  ({ session with text }, .text text)

/-- The session with other commands, which are shown if they can be. -/
def showCommands (session : Session) (commands : List Command) :
    Except Error (Session × View) := do
  let records ← commands.mapM Command.toRecord
  return ({ session with commands }, .commands records)

/-- The session after a step, and what the step shows. -/
def step (session : Session) : Step → Except Error (Session × View)
  | .setText text => return session.showText text
  | .appendText text => return session.showText (session.text ++ text)
  | .appendTemplate escapeBreaks segments values => do
      let filled ← Template.fill escapeBreaks segments values
      return session.showText (session.text ++ filled)
  | .writeCommands request => do
      let style ← request.resolve
      let text ← Command.renderAll style session.commands
      return session.showText text
  | .showKinds => do
      let tokens ← Token.ofText session.text
      return (session, .kinds (tokens.map fun token => token.symbol.kind))
  | .readCommands maxDepth => do
      let limit ← DepthLimit.ofSetting maxDepth
      let commands ← Script.parse limit.value session.text
      session.showCommands commands
  | .readCommand maxDepth => do
      let limit ← DepthLimit.ofSetting maxDepth
      let command ← Script.parseSingle limit.value session.text
      session.showCommands [command]
  | .push record => do
      let command ← record.toCommand
      session.showCommands (session.commands ++ [command])
  | .wrap name args options => do
      let command ← Command.assemble name args options session.commands
      session.showCommands [command]
  | .unwrap => session.showCommands (session.commands.flatMap Command.subs)

/-- What each of a sequence of steps shows, or how it fails. -/
def run (session : Session) : List Step → List (Except Error View)
  | [] => []
  | step :: rest =>
      match session.step step with
      | .ok (next, view) => .ok view :: run next rest
      | .error error => .error error :: run session rest

end Session

end CommandScript
