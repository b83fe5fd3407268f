import VbaTrace.Library.Routine

/-!
Values, token lists and syntax nodes. They are one mutual family: a token list holds values, a node
is built from token lists, and a node is itself a value, because a program can store one in a
variable.

A `Tokens` is what matching a rule yields: the items in order, and labels that name some of them. A
label that was not matched reads as the empty text.
-/

set_option autoImplicit false

namespace VbaTrace

/-- The operators of the expression grammar. -/
inductive Operator
  | multiply | divide | floorDivide | modulo | subtract | add | concatenate | xor | and | or | eqv
deriving DecidableEq, Repr

mutual

/-- A value of the emulated program, or an item of a token list. -/
inductive Value
  | null
  | bool (b : Bool)
  | int (n : Int)
  | float (x : Float)
  | text (s : String)
  /-- A list that no variable holds yet. -/
  | list (items : List Value)
  /-- A list that variables share, by the number of its cell. -/
  | array (cell : Nat)
  | tokens (t : Tokens)
  | node (n : Node)
  | routine (r : Routine)

/-- The result of matching a rule. -/
inductive Tokens
  | mk (items : List Value) (labels : List Label)

/-- All values that one label was given, oldest first. -/
inductive Label
  | mk (name : String) (values : List Value)

/-- A named value, in tables that keep their order. -/
inductive Binding
  | mk (name : String) (value : Value)

/-- A declared variable: its name, whether it is an array, and its type if one was given. -/
inductive Declared
  | mk (name : Value) (isArray : Bool) (type : Value)

/-- A branch of a conditional; the guard of an `Else` branch is null. -/
inductive Branch
  | mk (guard : Value) (body : Value)

/-- A node of the syntax tree. -/
inductive Node
  -- expressions
  | chr (arg : Value)
  | asc (arg : Value)
  | strReverse (arg : Value)
  | environ (arg : Value)
  | simpleName (name : String)
  | me
  | member (object : Value) (path : List Value) (last : Value)
  | call (name : String) (args : Value)
  | element (array : Value) (index : Value)
  | operation (op : Operator) (operands : List Value)
  | comparison (lhs : Value) (op : Value) (rhs : Value)
  | condition (lhs : Value) (op : Value) (rhs : Value)
  | new (object : Value)
  -- declarations
  | attributeLine (name : Value) (value : Value)
  | optionLine (name : Value)
  | parameter (name : Value) (type : Value)
  | dim (initial : Value) (declared : List Declared)
  | globalVar (name : Value) (value : Value) (source : Tokens)
  | external (name : Value) (params : Value) (library : Value) (exported : Value) (returns : Value)
  -- statements
  | unknown (text : Value)
  | assign (target : Value) (index : Value) (value : Value)
  | property (target : Value) (param : Value) (value : Value)
  | forLoop (name : Value) (start : Value) (stop : Value) (step : Value) (body : Value)
  | forEach (item : Value) (container : Value) (body : Value)
  | whileLoop (kind : Value) (guard : Value) (body : Value)
  | doLoop (kind : Value) (guard : Value) (body : Value)
  | select (subject : Value) (cases : Value)
  | selectClause (subject : Value)
  | caseClause (values : Value) (isRange : Bool) (isSet : Bool) (isElse : Bool)
  | selectCase (guard : Value) (body : Value)
  | conditional (directive : Bool) (branches : List Branch)
  | callStatement (name : Value) (args : Value)
  | exitFor
  | exitDo
  | exitProcedure
  | redim (item : Value)
  | withBlock (subject : Value) (body : Value)
  | goto (label : Value)
  | label (label : Value)
  | onError (source : Tokens)
  | openFile (fileName : Value) (fileId : Value) (mode : Value) (access : Value)
  | print (fileId : Value) (value : Value)
  -- procedures and modules
  | sub (name : Value) (params : Value) (body : Value) (trailing : Value)
  | function (name : Value) (params : Value) (body : Value) (returns : Value) (trailing : Value)
  | codeModule (name : Value) (attributes : List Binding) (subs : List Binding)
      (functions : List Binding) (externals : List Binding) (globalVars : List Binding)

end

instance : Inhabited Value := ⟨.null⟩
instance : Inhabited Tokens := ⟨.mk [] []⟩

namespace Value

/-- The empty text, which is also what an unmatched label reads as. -/
def empty : Value := .text ""

end Value

namespace Label

def name : Label → String
  | .mk n _ => n

def values : Label → List Value
  | .mk _ vs => vs

end Label

namespace Binding

def name : Binding → String
  | .mk n _ => n

def value : Binding → Value
  | .mk _ v => v

/-- Replaces the value of a name in its place, or adds the name at the end. -/
def put (name : String) (value : Value) : List Binding → List Binding
  | [] => [.mk name value]
  | b :: bs => if b.name == name then .mk name value :: bs else b :: put name value bs

def find? (name : String) (bs : List Binding) : Option Value :=
  (bs.find? fun b ↦ b.name == name).map Binding.value

end Binding

namespace Branch

def guard : Branch → Value
  | .mk g _ => g

def body : Branch → Value
  | .mk _ b => b

end Branch

namespace Tokens

def empty : Tokens := .mk [] []

def items : Tokens → List Value
  | .mk is _ => is

def labels : Tokens → List Label
  | .mk _ ls => ls

def one (v : Value) : Tokens := .mk [v] []

def ofList (vs : List Value) : Tokens := .mk vs []

/-- Adds values to a label, after those that it has. -/
def addLabel (name : String) (values : List Value) : List Label → List Label
  | [] => [.mk name values]
  | l :: ls =>
    if l.name == name then .mk name (l.values ++ values) :: ls else l :: addLabel name values ls

/-- The items of both, in order, with the labels of both. -/
def append (a b : Tokens) : Tokens :=
  .mk (a.items ++ b.items) (b.labels.foldl (fun ls l ↦ addLabel l.name l.values ls) a.labels)

/-- The last value that a label was given. -/
def find? (t : Tokens) (name : String) : Option Value :=
  (t.labels.find? fun l ↦ l.name == name).bind fun l ↦ l.values.getLast?

/-- The value of a label; a label that was not matched reads as the empty text. -/
def get (t : Tokens) (name : String) : Value :=
  (t.find? name).getD Value.empty

end Tokens

end VbaTrace
