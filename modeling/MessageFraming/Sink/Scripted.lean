import MessageFraming.Sink

/-!
# Scripted sinks and closing functions

The devices at the bottom follow a script: each write, flush, close or invocation takes the next
rule of its own list, and goes well once the list is used up. A sink keeps the bytes it accepted and
whether it was closed; a closed sink refuses writes without using up a rule.
-/

namespace MessageFraming

/-- What the next write does. -/
inductive WriteRule where
  /-- Takes what is offered, up to a number of bytes if there is one. -/
  | accept (most : Option Nat)
  | fail (error : IoError)
  | crash (message : String)
deriving Repr, DecidableEq

/-- What the next flush, close or invocation does. -/
inductive CallRule where
  | succeed
  | fail (error : IoError)
  | crash (message : String)
deriving Repr, DecidableEq

def CallRule.outcome : CallRule → Outcome IoError Unit
  | succeed => .ok ()
  | fail e => .error e
  | crash message => .crash message

/-- The outcome of the next call of a script, and the script after it. -/
def CallRule.next : List CallRule → Outcome IoError Unit × List CallRule
  | [] => (.ok (), [])
  | rule :: rules => (rule.outcome, rules)

structure ScriptedSink where
  name : String
  writes : List WriteRule
  flushes : List CallRule
  closes : List CallRule
  data : Bytes
  closed : Bool
deriving Repr, DecidableEq

namespace ScriptedSink

/-- A closed sink takes no more bytes. -/
def writeAfterClose : IoError := .plain .brokenPipe "write after close"

/-- Takes the first `n` bytes of what is offered, or all if there are fewer. -/
def take (n : Nat) (bytes : Bytes) (s : ScriptedSink) : Reply ScriptedSink IoError Nat :=
  let taken := bytes.take n
  ⟨.ok taken.length, { s with data := s.data ++ taken },
    [.write s.name bytes.length (.accepted taken.length)]⟩

def write (bytes : Bytes) (s : ScriptedSink) : Reply ScriptedSink IoError Nat :=
  if s.closed then
    ⟨.error writeAfterClose, s, [.write s.name bytes.length .refused]⟩
  else
    match s.writes with
    | [] => take bytes.length bytes s
    | .accept most :: rules => take (most.getD bytes.length) bytes { s with writes := rules }
    | .fail e :: rules =>
      ⟨.error e, { s with writes := rules }, [.write s.name bytes.length (.failed e.kind)]⟩
    | .crash message :: rules =>
      ⟨.crash message, { s with writes := rules }, [.write s.name bytes.length .crashed]⟩

def flush (s : ScriptedSink) : Reply ScriptedSink IoError Unit :=
  let (outcome, rules) := CallRule.next s.flushes
  ⟨outcome, { s with flushes := rules }, [.flush s.name (.ofOutcome outcome)]⟩

def close (s : ScriptedSink) : Reply ScriptedSink IoError Unit :=
  let (outcome, rules) := CallRule.next s.closes
  let closed := match outcome with
    | .ok () => true
    | _ => s.closed
  ⟨outcome, { s with closes := rules, closed }, [.close s.name (.ofOutcome outcome)]⟩

instance : ByteSink ScriptedSink where
  write := write
  flush := flush
  patience s := s.writes.length
  patience_le bytes s := by
    unfold write
    split
    · simp [Outcome.interruptions, writeAfterClose, IoError.plain, IoError.isInterrupted]
    · split
      · rename_i h
        simp [take, h, Outcome.interruptions]
      · rename_i h
        simp [take, h, Outcome.interruptions]
      · rename_i e rules h
        have hone := (Outcome.error e : Outcome IoError Nat).interruptions_le_one
        simp only [h, List.length_cons]
        omega
      · rename_i h
        simp [h, Outcome.interruptions]

instance : Closable ScriptedSink where
  close := close

/-- Dropping a sink does nothing. -/
instance : Disposable ScriptedSink where
  dispose s := .pure () s

end ScriptedSink

/-- A closing function with a scripted answer to each invocation. -/
structure Callback where
  name : String
  results : List CallRule
deriving Repr, DecidableEq

namespace Callback

def invoke (c : Callback) : Reply Callback IoError Unit :=
  let (outcome, rules) := CallRule.next c.results
  ⟨outcome, { c with results := rules }, [.invoke c.name (.ofOutcome outcome)]⟩

instance : Closable Callback where
  close := invoke

instance : Disposable Callback where
  dispose c := .pure () c

end Callback

end MessageFraming
