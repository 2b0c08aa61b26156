import Narrative.State
import Narrative.Text.Blank
import Narrative.Value

/-! What verbs take and why they refuse: argument counts, arguments by position, and errors. -/

namespace Narrative

/-- The argument counts that a verb accepts; without a greatest count there is no bound. -/
structure Arity where
  least : Nat
  greatest : Option Nat
  deriving DecidableEq

namespace Arity

def exactly (n : Nat) : Arity :=
  ⟨n, some n⟩

def range (least greatest : Nat) : Arity :=
  ⟨least, some greatest⟩

def atLeast (n : Nat) : Arity :=
  ⟨n, none⟩

def accepts (a : Arity) (n : Nat) : Bool :=
  a.least ≤ n && a.greatest.all (n ≤ ·)

def display (a : Arity) : String :=
  match a.greatest with
  | some n => if n = a.least then writeNat n else writeNat a.least ++ ".." ++ writeNat n
  | none => "at least " ++ writeNat a.least

end Arity

inductive ArgumentFault where
  | missing
  | notWhole (got : String)
  | notPositive (n : Int64)
  | notText (got : Kind)
  | notStorable (got : Kind)
  | backwards
  deriving DecidableEq

def ArgumentFault.message : ArgumentFault → String
  | .missing => "missing"
  | .notWhole got => "expected an integer, got " ++ got
  | .notPositive n => "count must be positive, got " ++ writeInt n.toInt
  | .notText got => "expected a string, got " ++ got.name
  | .notStorable got => "cannot store a " ++ got.name ++ " in a flag"
  | .backwards => "time cannot run backwards"

inductive VerbError where
  | notFound (verb : String)
  | arity (verb : String) (expected : Arity) (got : Nat)
  | argument (verb : String) (index : Nat) (fault : ArgumentFault)
  | tooDeep (verb : String)
  | failed (reason : String)
  deriving DecidableEq

def VerbError.message : VerbError → String
  | .notFound verb => "Error: Function " ++ verb ++ " not found."
  | .arity verb expected got =>
    verb ++ " expects " ++ expected.display ++ " argument(s), got " ++ writeNat got
  | .argument verb index fault =>
    verb ++ ": argument " ++ writeNat index ++ ": " ++ fault.message
  | .tooDeep verb => verb ++ ": call depth limit exceeded"
  | .failed reason => reason

structure Args where
  verb : String
  values : List Value

namespace Args

variable {α : Type}

def fault (a : Args) (index : Nat) (f : ArgumentFault) : Except VerbError α :=
  .error (.argument a.verb index f)

def value (a : Args) (index : Nat) : Except VerbError Value :=
  match a.values[index]? with
  | some v => .ok v
  | none => a.fault index .missing

/-- A whole number: one itself, a truth value as zero or one, a finite float without its fraction,
or a text that reads as one. -/
def int (a : Args) (index : Nat) : Except VerbError Int64 := do
  match ← a.value index with
  | .int n => return n
  | .float x =>
    if x.isFinite then return truncateToWord x
    else a.fault index (.notWhole Kind.float.name)
  | .bool b => return if b then 1 else 0
  | .text s =>
    match readInt64? (trim s.toList) with
    | some n => return n
    | none => a.fault index (.notWhole ("'" ++ s ++ "'"))
  | v => a.fault index (.notWhole v.kind.name)

def intOr (a : Args) (index : Nat) (n : Int64) : Except VerbError Int64 :=
  if index < a.values.length then a.int index else .ok n

def countOr (a : Args) (index : Nat) (n : UInt32) : Except VerbError UInt32 := do
  let n ← a.intOr index (Int64.ofNat n.toNat)
  match uint32? n.toInt with
  | some c => if c = 0 then a.fault index (.notPositive n) else return c
  | none => a.fault index (.notPositive n)

/-- The text of a single value; nothing, lists and maps have none. -/
def text (a : Args) (index : Nat) : Except VerbError String := do
  match ← a.value index with
  | .none => a.fault index (.notText .none)
  | .list _ => a.fault index (.notText .list)
  | .map _ => a.fault index (.notText .map)
  | v => return v.display

def flag (a : Args) (index : Nat) (v : Value) : Except VerbError Flag :=
  match v.toFlag? with
  | some f => .ok f
  | none => a.fault index (.notStorable v.kind)

def forward (a : Args) (index : Nat) (minutes : Int64) : Except VerbError Nat :=
  if minutes < 0 then a.fault index .backwards else .ok minutes.toInt.toNat

end Args

end Narrative
