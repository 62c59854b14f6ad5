import RuleScan.Number.Basic
import RuleScan.Text.Units

/-! Decoded data: the values that rule files, configuration files and reports are made of. The
members of an object are kept in the order in which they are walked. -/

namespace RuleScan

inductive Value where
  | null
  | bool (b : Bool)
  | num (n : Number)
  | str (s : String)
  | arr (items : List Value)
  | obj (members : List (String × Value))
  deriving Inhabited

/-- The members of an object, in walking order. -/
abbrev Members := List (String × Value)

/-- The index a key stands for: a canonical decimal below `2 ^ 32 - 1`. -/
def indexKey? (key : String) : Option Nat :=
  let cs := key.toList
  if cs.isEmpty || 10 < cs.length || !cs.all (fun c => '0' ≤ c && c ≤ '9') then none
  else if cs.head? == some '0' && cs.length != 1 then none
  else
    let n := cs.foldl (fun n c => n * 10 + (c.toNat - 48)) 0
    if n < 4294967295 then some n else none

/-- Whether a key that arrives is walked before one that is there: only index keys are, before other keys and before
those of a larger index. -/
def walksBefore (key other : String) : Bool :=
  match indexKey? key, indexKey? other with
  | some i, some j => i < j
  | some _, none => true
  | none, _ => false

/-- Places a new pair: index keys come first, ascending; other keys in order of arrival. -/
def placeKey {α : Type} (key : String) (value : α) : List (String × α) → List (String × α)
  | [] => [(key, value)]
  | (k, v) :: rest =>
    if walksBefore key k then (key, value) :: (k, v) :: rest else (k, v) :: placeKey key value rest

namespace Members

def get? : Members → String → Option Value
  | [], _ => none
  | (k, v) :: rest, key => if k = key then some v else get? rest key

def contains (m : Members) (key : String) : Bool := (m.get? key).isSome

def keys (m : Members) : List String := m.map (·.1)

def place (key : String) (value : Value) (m : Members) : Members := placeKey key value m

def replace (key : String) (value : Value) : Members → Members
  | [] => []
  | (k, v) :: rest => if k = key then (k, value) :: rest else (k, v) :: replace key value rest

/-- Sets a key: a present key keeps its place, a new one is placed. -/
def set (m : Members) (key : String) (value : Value) : Members :=
  if m.contains key then m.replace key value else m.place key value

/-- Members from pairs in order of arrival: of a repeated key the first place and the last value stay. -/
def ofPairs (pairs : List (String × Value)) : Members := pairs.foldl (fun m p => m.set p.1 p.2) []

end Members

namespace Value

def ofNat (n : Nat) : Value := .num (Number.ofNat n)

def ofInt (n : Int) : Value := .num (Number.ofInt n)

instance : Coe String Value := ⟨.str⟩

def object (pairs : List (String × Value)) : Value := .obj (Members.ofPairs pairs)

/-- The object with these members, without those that have no value. -/
def record (pairs : List (String × Option Value)) : Value :=
  object (pairs.filterMap fun p => p.2.map (p.1, ·))

/-- A value that may be missing, written as null. -/
def orNull : Option Value → Value := (·.getD .null)

/-- A member of an object; other values have none. -/
def get? : Value → String → Option Value
  | .obj m, key => Members.get? m key
  | _, _ => none

def str? : Value → Option String
  | .str s => some s
  | _ => none

def arr? : Value → Option (List Value)
  | .arr items => some items
  | _ => none

def obj? : Value → Option Members
  | .obj m => some m
  | _ => none

def num? : Value → Option Number
  | .num n => some n
  | _ => none

def bool? : Value → Option Bool
  | .bool b => some b
  | _ => none

def isObj : Value → Bool
  | .obj _ => true
  | _ => false

/-- The word for the kind of a value, as reports use it. -/
def kindWord : Value → String
  | .null => "null"
  | .bool _ => "boolean"
  | .num _ => "number"
  | .str _ => "string"
  | .arr _ => "array"
  | .obj _ => "object"

/-- The word for the kind of a value that may be missing. -/
def describe : Option Value → String
  | none => "undefined"
  | some v => v.kindWord

def strings (xs : List String) : Value := .arr (xs.map .str)

end Value

end RuleScan
