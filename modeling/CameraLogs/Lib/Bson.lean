import Mathlib.Algebra.Order.Ring.Rat

/-!
# Values of a document database

A document has fields of values of many types. The database orders values of different types by
their type and numbers by their value, a missing field below all; the language of its clients has
its own equality, truth and hashing of the same values.

Expressions of an aggregation compare a field with literals only, so comparing with a literal is
all there is of the order here.
-/

namespace CameraLogs.Lib

/-- The value of a floating point or decimal number. -/
inductive RealNumber where
  | nan
  | negInfinity
  | finite (value : ℚ)
  | infinity
  deriving DecidableEq

inductive BsonValue where
  | minKey
  | null
  | int (value : Int)
  | double (value : RealNumber)
  | decimal (value : RealNumber)
  | string (text : String)
  | document (members : List (String × BsonValue))
  | array (items : List BsonValue)
  | binary (data : List UInt8)
  | objectId (id : Fin (16 ^ 24))
  | bool (value : Bool)
  | date (instant : Int)
  | timestamp (value : Nat)
  | regex (pattern options : String)
  | code (text : String)
  | maxKey

/-- A literal of an expression. -/
inductive Literal where
  | null
  | int (value : Int)
  | string (text : String)
  | bool (value : Bool)
  deriving DecidableEq

def Literal.value : Literal → BsonValue
  | .null => .null
  | .int value => .int value
  | .string text => .string text
  | .bool value => .bool value

/-! ## The database's order -/

/-- The place of a type among the types; a missing field is `0`. -/
def BsonValue.rank : BsonValue → Nat
  | .minKey => 1
  | .null => 5
  | .int _ | .double _ | .decimal _ => 10
  | .string _ => 15
  | .document _ => 20
  | .array _ => 25
  | .binary _ => 30
  | .objectId _ => 35
  | .bool _ => 40
  | .date _ => 45
  | .timestamp _ => 47
  | .regex _ _ => 50
  | .code _ => 60
  | .maxKey => 127

def fieldRank : Option BsonValue → Nat
  | none => 0
  | some value => value.rank

/-- NaN is below the other numbers. -/
def RealNumber.compareInt (n : Int) : RealNumber → Ordering
  | .nan | .negInfinity => .lt
  | .finite value => compare value n
  | .infinity => .gt

/-- How a field compares with a literal. -/
def compareLiteral (field : Option BsonValue) (literal : Literal) : Ordering :=
  match field, literal with
  | some (.int value), .int n => compare value n
  | some (.double value), .int n | some (.decimal value), .int n => value.compareInt n
  | some (.string text), .string text' => compare text text'
  | some (.bool value), .bool value' => compare value value'
  | field, literal => compare (fieldRank field) literal.value.rank

/-! ## The client's values -/

/-- Whether the value can be looked up in a set or a dictionary. -/
def BsonValue.hashable : BsonValue → Bool
  | .document _ | .array _ | .regex _ _ | .code _ | .decimal _ => false
  | _ => true

/-- `bool(value)` -/
def BsonValue.truthy : BsonValue → Bool
  | .null => false
  | .int value => value ≠ 0
  | .double value => value ≠ .finite 0
  | .string text => text ≠ ""
  | .document members => !members.isEmpty
  | .array items => !items.isEmpty
  | .binary data => !data.isEmpty
  | .bool value => value
  | .code text => text ≠ ""
  | _ => true

/-- The integer a value is an instance of; a truth value is one. -/
def BsonValue.asInt : BsonValue → Option Int
  | .int value => some value
  | .bool value => some value.toInt
  | _ => none

/-- `value == text` -/
def BsonValue.isText (text : String) : BsonValue → Bool
  | .string text' => text' = text
  | _ => false

/-- `value is False` -/
def BsonValue.isFalse : BsonValue → Bool
  | .bool false => true
  | _ => false

mutual

/-- No document in the value has a key that extended JSON has a meaning of its own for. -/
def BsonValue.plain : BsonValue → Bool
  | .document members => plainMembers members
  | .array items => plainItems items
  | _ => true

def plainMembers : List (String × BsonValue) → Bool
  | [] => true
  | (key, value) :: members => key.toList.head? ≠ some '$' && value.plain && plainMembers members

def plainItems : List BsonValue → Bool
  | [] => true
  | value :: items => value.plain && plainItems items

end

/-! ## Tables -/

/-- A table of texts, and the text that stands for each. -/
abbrev Table := List (String × String)

/-- A set of texts as a table: each stands for itself. -/
def textSet (texts : List String) : Table := texts.map fun text => (text, text)

/-- What stands under a value that is a text of the table. -/
def Table.entry (table : Table) (value : BsonValue) : Option String :=
  (table.find? fun entry => value.isText entry.1).map Prod.snd

/-- `if value in table: return table[value]`, and what is tried otherwise. -/
def tableOr (table : Table) (value : BsonValue) (otherwise : Option String) : Option String :=
  if value.hashable then (table.entry value).or otherwise else none

/-- `value in table` -/
def inTable (table : Table) (value : BsonValue) : Option Bool :=
  if value.hashable then some (table.entry value).isSome else none

/-! ## Documents -/

abbrev Document := List (String × BsonValue)

/-- A field of a document, if it is there. -/
def Document.field (document : Document) (name : String) : Option BsonValue :=
  (document.find? fun member => member.1 = name).map Prod.snd

/-- `document.get(name)` -/
def Document.get (document : Document) (name : String) : BsonValue :=
  (document.field name).getD .null

/-- `{**document, name: value}` -/
def Document.set : Document → String → BsonValue → Document
  | [], name, value => [(name, value)]
  | member :: members, name, value =>
    if member.1 = name then (name, value) :: members
    else member :: Document.set members name value

@[simp] theorem field_set (document : Document) (name name' : String) (value : BsonValue) :
    (document.set name value).field name' =
      if name = name' then some value else document.field name' := by
  induction document with
  | nil => by_cases h : name = name' <;> simp [Document.set, Document.field, h]
  | cons member members ih =>
    by_cases hmember : member.1 = name
    · by_cases h : name = name' <;> simp [Document.set, Document.field, hmember, h]
    · have hset : Document.set (member :: members) name value =
          member :: Document.set members name value := if_neg hmember
      rw [hset]
      by_cases h : member.1 = name'
      · have hother : name ≠ name' := fun heq => hmember (h.trans heq.symm)
        simp [Document.field, h, hother]
      · have hskip : ∀ rest : Document,
            Document.field (member :: rest) name' = Document.field rest name' := by
          intro rest
          simp [Document.field, h]
        rw [hskip, hskip, ih]

end CameraLogs.Lib
