import VbaTrace.Decimal.Reading
import VbaTrace.Grammar.Pattern
import VbaTrace.Syntax.Render

/-!
From tokens to nodes: what each builder makes of the tokens of its rule. A builder may refuse, which
counts as a failed match, or raise a fault, which ends the whole reading. Most builders write the text
of their node to the log, and that is a fault when a number in it has too many digits.
-/

set_option autoImplicit false

namespace VbaTrace.Grammar

inductive Built
  | values (vs : List Value)
  | refused
  | faulty (f : Fault)

namespace Built

def one (v : Value) : Built := .values [v]

def node (n : Node) : Built := .one (.node n)

def ofOption (v : Option Value) : Built :=
  match v with
  | some v => .one v
  | none => .refused

end Built

/-- The tokens that a value holds, none for other values. -/
def tokensOf : Value → Tokens
  | .tokens t => t
  | _ => .empty

def isSign (s : String) : Value → Bool
  | .text t => t == s
  | _ => false

/-- Every second item, from the first. -/
def operandsOf : List Value → List Value
  | [] => []
  | [v] => [v]
  | v :: _ :: vs => v :: operandsOf vs

/-- Joins a run of operands and connectives to the right. -/
def conditionOf : List Value → Node
  | [] => .condition (.list []) .null .null
  | [v] => .condition v .null .null
  | v :: op :: vs => .condition v op (.node (conditionOf vs))

/-- A condition from what the connectives' rule yields: a comparison alone, a negation, or a run of
operands and connectives. -/
def buildCondition : Value → Built
  | .tokens t =>
    match t.items with
    | [] | [_] => .refused
    | [op, v] => .node (.condition .null op v)
    | vs => .node (conditionOf vs)
  | v => .node (.condition v .null .null)

def buildComparison (t : Tokens) : Built :=
  match t.items with
  | [] => .faulty .failedAssertion
  | [lhs, op, rhs] => .node (.comparison lhs op rhs)
  | lhs :: _ => .node (.comparison lhs .null .null)

/-- The object before the first dot, the names after it, and the separately labelled last one. -/
def buildMember (t : Tokens) : Built :=
  match t.items with
  | [] => .refused
  | outer :: _ =>
    match (tokensOf outer).items with
    | [] => .refused
    | v :: _ =>
      let inner := tokensOf v
      .node (.member (inner.get "lhs") inner.items.tail (inner.get "rhs1"))

def declaredOf (v : Value) : Declared :=
  let items := (tokensOf v).items
  let isArray := (items[1]?).any (isSign "(")
  let type :=
    match items with
    | _ :: _ :: _ => (items.getLast?.filter fun x ↦ !isSign ")" x).getD .null
    | _ => .null
  .mk (items.head?.getD .null) isArray type

/-- The initial value of a declaration list is that of its last variable. -/
def initialOf (v : Value) : Value :=
  match (tokensOf v).items.reverse with
  | x :: eq :: _ :: _ => if isSign "=" eq then x else .null
  | _ => .null

def buildDim (t : Tokens) : Built :=
  match t.items.getLast? with
  | none => .refused
  | some last => .node (.dim (initialOf last) (t.items.map declaredOf))

def buildGlobalVar (t : Tokens) : Built :=
  match t.items with
  | [] => .refused
  | v :: _ =>
    match (tokensOf v).items with
    | [] => .refused
    | [name] | [name, _] => .node (.globalVar name .empty t)
    | name :: _ :: value :: _ => .node (.globalVar name value t)

def orNull (v : Value) : Value :=
  if isSign "" v then .null else v

def buildForLoop (t : Tokens) : Built :=
  let step := t.find? "step_value"
  match step with
  | none =>
    .node (.forLoop (t.get "name") (t.get "start_value") (t.get "end_value") (.int 1)
      (t.get "statements"))
  | some s =>
    match (tokensOf s).items with
    | [] => .refused
    | v :: _ =>
      .node (.forLoop (t.get "name") (t.get "start_value") (t.get "end_value") v
        (t.get "statements"))

def buildSelectClause (t : Tokens) : Built :=
  match t.get "select_val" with
  | .text s =>
    match s.toList with
    | [] => .refused
    | c :: _ => .node (.selectClause (.text (String.singleton c)))
  | .tokens u =>
    match u.items with
    | [] => .refused
    | v :: _ => .node (.selectClause v)
  | _ => .faulty .wrongType

/-- A case lists values, gives a range, or is the else case. Its values have to be a list or a text,
and as many as its kind needs. -/
def buildCaseClause (t : Tokens) : Built :=
  let values := t.get "case_val"
  let isRange := !isSign "" (t.get "lbound")
  match values.walk? with
  | none => .faulty .wrongType
  | some vs =>
    let isSet := !isRange && vs.length > 1
    let isElse := vs.any fun v ↦ Text.lower v.display == "else"
    let needed := if isRange then 2 else if isSet then 0 else 1
    if vs.length < needed then .refused
    else .node (.caseClause values isRange isSet isElse)

def branchesOf : List Value → List Branch
  | [] => []
  | v :: vs =>
    match (tokensOf v).items with
    | [guard, body] => .mk guard body :: branchesOf vs
    | [body] => .mk .null body :: branchesOf vs
    | _ => branchesOf vs

def stripQuotes (s : String) : String :=
  let front := s.toList.dropWhile (· == '"')
  String.ofList (front.reverse.dropWhile (· == '"')).reverse

/-- A library name is in lower case, without quotes, and has an extension. -/
def libraryName (s : String) : String :=
  let name := Text.lower (stripQuotes s)
  if name.toList.contains '.' then name else name ++ ".dll"

def buildExternal (t : Tokens) : Built :=
  let library :=
    match t.get "lib_name" with
    | .text s => Value.text (libraryName s)
    | v => v
  let exported :=
    match t.get "alias_name" with
    | .text s => Value.text (stripQuotes s)
    | v => v
  .node (.external (t.get "function_name") (t.get "params") library exported (t.get "return_type"))

/-- The trailing unterminated conditional of a procedure, when there is one. -/
def trailingOf (t : Tokens) : Value :=
  match t.get "bogus_if" with
  | .tokens u => if u.items.isEmpty then .null else .tokens u
  | _ => .null

/-- What a module holds, sorted by kind; a later declaration of a name replaces an earlier one. -/
structure ModuleParts where
  attributes : List Binding := []
  subs : List Binding := []
  functions : List Binding := []
  externals : List Binding := []
  globalVars : List Binding := []

def ModuleParts.add (p : ModuleParts) : Value → ModuleParts
  | .node n =>
    match n with
    | .sub name _ _ _ => { p with subs := Binding.put name.display (.node n) p.subs }
    | .function name _ _ _ _ =>
      { p with functions := Binding.put name.display (.node n) p.functions }
    | .external name _ _ _ _ =>
      { p with externals := Binding.put name.display (.node n) p.externals }
    | .attributeLine name value =>
      { p with attributes := Binding.put name.display value p.attributes }
    | .globalVar name value _ =>
      { p with globalVars := Binding.put name.display value p.globalVars }
    | _ => p
  | _ => p

def buildModule (t : Tokens) : Built :=
  let p := t.items.foldl ModuleParts.add {}
  .node (.codeModule ((Binding.find? "VB_Name" p.attributes).getD .null) p.attributes p.subs
    p.functions p.externals p.globalVars)

/-- Whole numbers of texts that were matched as signed digits. -/
def readWholeNumbers : List Value → Built
  | [] => .values []
  | v :: vs =>
    match Decimal.readInt? v.display, readWholeNumbers vs with
    | some n, .values ws => .values (.int n :: ws)
    | _, _ => .faulty .wrongValue

def buildFraction (t : Tokens) : Built :=
  match t.items with
  | whole :: frac :: _ =>
    match Decimal.readFloat? (whole.display ++ "." ++ frac.display) with
    | some x => .one (.float x)
    | none => .faulty .wrongValue
  | _ => .refused

def buildNumber (base : Nat) (t : Tokens) : Built :=
  match t.items with
  | [] => .refused
  | v :: _ =>
    match Decimal.readBase? base v.display.toList with
    | some n => .one (.int n)
    | none => .faulty .wrongValue

def buildOne (t : Tokens) (f : Value → Node) : Built :=
  match t.items with
  | [] => .refused
  | v :: _ => .node (f v)

namespace Builder

/-- What a builder makes of the tokens of its rule. -/
def make (b : Builder) (t : Tokens) : Built :=
  match b with
  | firstItem => .ofOption t.items.head?
  | oneSpace => .one (.text " ")
  | wholeNumbers => readWholeNumbers t.items
  | booleanLiteral => .ofOption (t.items.head?.map fun v ↦ .bool (Text.lower v.display == "true"))
  | decimal =>
    match t.items with
    | [] => .refused
    | v :: _ =>
      match Decimal.readInt? v.display with
      | some n => .one (.int n)
      | none => .faulty .wrongValue
  | octal => buildNumber 8 t
  | hexadecimal => buildNumber 16 t
  | fraction => buildFraction t
  | filePointer => .ofOption (t.items.head?.map fun v ↦ .text ("#" ++ v.display))
  | chr => buildOne t .chr
  | asc => buildOne t .asc
  | strReverse => buildOne t .strReverse
  | environ => .node (.environ (t.get "arg"))
  | simpleName => .node (.simpleName (t.get "name").display)
  | me => .node .me
  | member => buildMember t
  | call => .node (.call (t.get "name").display (t.get "params"))
  | element => .node (.element (t.get "array") (t.get "index"))
  | operation op => buildOne t fun v ↦ .operation op (operandsOf (tokensOf v).items)
  | comparison => buildComparison t
  | condition =>
    match t.items with
    | [] => .refused
    | v :: _ => buildCondition v
  | new => .node (.new (t.get "expression"))
  | unknown => .node (.unknown (t.get "text"))
  | attributeLine => .node (.attributeLine (t.get "name") (t.get "value"))
  | optionLine => .node (.optionLine (t.get "name"))
  | parameter => .node (.parameter (t.get "name") (t.get "type"))
  | dim => buildDim t
  | globalVar => buildGlobalVar t
  | external => buildExternal t
  | assign => .node (.assign (t.get "name") (orNull (t.get "index")) (t.get "expression"))
  | property => .node (.property (t.get "prop") (t.get "param") (t.get "value"))
  | forLoop => buildForLoop t
  | forEach =>
    let clause := tokensOf (t.get "clause")
    .node (.forEach (clause.get "item") (clause.get "container") (t.get "statements"))
  | whileLoop =>
    let clause := tokensOf (t.get "clause")
    match t.items with
    | _ :: _ :: body :: _ => .node (.whileLoop (clause.get "type") (clause.get "guard") body)
    | _ => .refused
  | doLoop =>
    match t.items with
    | [] => .refused
    | body :: _ => .node (.doLoop (t.get "type") (t.get "guard") body)
  | selectClause => buildSelectClause t
  | caseClause => buildCaseClause t
  | selectCase => .node (.selectCase (t.get "case_val") (t.get "body"))
  | select => .node (.select (t.get "select_val") (t.get "cases"))
  | conditional => .node (.conditional false (branchesOf t.items))
  | directive => .node (.conditional true (branchesOf t.items))
  | callStatement => .node (.callStatement (t.get "name") (t.get "params"))
  | exitFor => .node .exitFor
  | exitDo => .node .exitDo
  | exitProcedure => .node .exitProcedure
  | redim => .node (.redim (t.get "item"))
  | withBlock =>
    match t.items with
    | _ :: body :: _ => .node (.withBlock (t.get "env") body)
    | _ => .refused
  | goto => .node (.goto (t.get "label"))
  | label => .node (.label (t.get "label"))
  | onError => .node (.onError t)
  | openFile =>
    let type := tokensOf (t.get "type")
    .node (.openFile (t.get "file_name") (t.get "file_id") (type.get "mode") (type.get "access"))
  | print => .node (.print (t.get "file_id") (t.get "value"))
  | sub => .node (.sub (t.get "sub_name") (t.get "params") (t.get "statements") (trailingOf t))
  | function =>
    .node (.function (t.get "function_name") (t.get "params") (t.get "statements")
      (t.get "return_type") (trailingOf t))
  | codeModule => buildModule t

/-- Whether the text of what a builder makes is written to the log. -/
def isLogged : Builder → Bool
  | firstItem | oneSpace | wholeNumbers | booleanLiteral | decimal | octal | hexadecimal | fraction
  | filePointer | asc | strReverse | environ => false
  | operation op => op == .concatenate
  | _ => true

/-- The result of a builder on the tokens of its rule. -/
def apply (b : Builder) (t : Tokens) : Built :=
  match b.make t with
  | .values vs => if b.isLogged && !allWritable vs then .faulty .wrongValue else .values vs
  | .refused => .refused
  | .faulty f => .faulty f

section

variable {b : Builder} {t : Tokens} {vs : List Value}

/-- A builder gives what it makes, unless that cannot be logged. -/
theorem apply_cases (b : Builder) (t : Tokens) :
    b.apply t = b.make t ∨ b.apply t = .faulty .wrongValue := by
  unfold apply
  split
  · next hmake =>
    rw [hmake]
    split
    · exact .inr rfl
    · exact .inl rfl
  · next hmake => exact .inl hmake.symm
  · next hmake => exact .inl hmake.symm

/-- What is true of what a builder makes, and of its fault, is true of what it gives. -/
theorem apply_induct {Q : Built → Prop} (hmake : Q (b.make t)) (hfault : Q (.faulty .wrongValue)) :
    Q (b.apply t) := by
  rcases b.apply_cases t with hsame | hfails
  · exact hsame ▸ hmake
  · exact hfails ▸ hfault

theorem apply_of_not_isLogged (h : b.isLogged = false) (t : Tokens) : b.apply t = b.make t := by
  unfold apply
  rw [h]
  split
  · next hmake => exact hmake.symm
  · next hmake => exact hmake.symm
  · next hmake => exact hmake.symm

theorem apply_of_make (h : b.make t = .values vs) (hwritable : allWritable vs = true) :
    b.apply t = .values vs := by
  unfold apply
  rw [h]
  dsimp only
  rw [hwritable, Bool.not_true, Bool.and_false]
  rfl

theorem apply_node {n : Node} (h : b.make t = .node n) (hwritable : n.isWritable = true) :
    b.apply t = .node n :=
  apply_of_make h (by rw [allWritable, allWritable, Value.isWritable, hwritable]; rfl)

theorem make_of_apply (h : b.apply t = .values vs) : b.make t = .values vs := by
  rcases b.apply_cases t with hsame | hfails
  · rw [← hsame, h]
  · rw [hfails] at h
    exact Built.noConfusion h

end

end Builder

end VbaTrace.Grammar
