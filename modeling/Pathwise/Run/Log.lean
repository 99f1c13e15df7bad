import Pathwise.Flow.Basic

/-!
# Logs

What a run tells about its course: why it ended as it did, and every state that it
takes up. An entry names its cause; the text is made from it.
-/

namespace Pathwise

/-- How much an entry of the log matters. -/
inductive LogLevel where
  | debug
  | warn
  | error
  deriving DecidableEq, Repr

/-- The level as it is printed. -/
def LogLevel.text : LogLevel → String
  | debug => "DEBUG"
  | warn => "WARN"
  | error => "ERROR"

/-- An entry of the log. -/
inductive LogEntry where
  | nothingToAnalyze
  | tooManyBranches (count limit : Nat)
  | malformedFlow (e : FlowError)
  | analyzing (flow : Flow)
  /-- A parameter declared not to be null is null on every path. -/
  | paramAlwaysNull (v : ValueId)
  | cancelled (queued : Nat)
  /-- A state is taken up at an instruction. -/
  | visiting (index : Nat) (i : Instr) (s : State)
  | tooManyStates (limit index : Nat)
  | analysisAborted (e : FlowError)
  /-- The contracts of a call made too many states. -/
  | contractsTooComplex (index : Nat)

namespace LogEntry

/-- How much the entry matters. -/
def level : LogEntry → LogLevel
  | tooManyBranches .. | tooManyStates .. => .warn
  | malformedFlow _ | analysisAborted _ => .error
  | _ => .debug

/-- An entry as it is printed, with the values of an arena. -/
def text (a : Arena) : LogEntry → String
  | nothingToAnalyze => "Nothing to analyze"
  | tooManyBranches n limit =>
    "Too complex: " ++ toString n ++ " branching instructions, limit is " ++ toString limit
  | malformedFlow e => "Malformed flow: " ++ e.message
  | analyzing flow =>
    "Analyzing flow of " ++ toString flow.size ++ " instructions:\n" ++ flow.text
  | paramAlwaysNull v =>
    "Not-null parameter " ++ v.text ++ " is always null, nothing is reachable"
  | cancelled n => "Cancelled with " ++ toString n ++ " items queued"
  | visiting index i s => toString index ++ ": " ++ i.text ++ " " ++ s.render a
  | tooManyStates limit index =>
    "Too complex: more than " ++ toString limit ++ " states at #" ++ toString index
  | analysisAborted e => "Analysis aborted: " ++ e.message
  | contractsTooComplex index =>
    "Contract expansion at #" ++ toString index ++ " too complex, using the default result"

end LogEntry

end Pathwise
