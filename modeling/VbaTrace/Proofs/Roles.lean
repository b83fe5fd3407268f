import VbaTrace.Semantics.Evaluate

/-!
Operands and statements. A value has a role where it stands: it is evaluated as an operand or as a
statement. `Value.fits` says that a tree keeps the roles apart, so that statements stand only in the
bodies of blocks and of procedures. Values that variables hold are operands; a procedure is one,
whatever its body does, since it runs in a frame of its own.

`Admits strict role v` is the form in which the other modules use this. With `strict` false it
allows every tree, with `strict` true only those that keep the roles apart. Here stand the laws of
the values that operations on values and on shared lists give.
-/

set_option autoImplicit false

namespace VbaTrace

/-- How a value is evaluated where it stands. An operand changes no variable of the frame in which
it is evaluated, and an assignment none of the flags that control the flow of statements. -/
inductive Role
  | operand | assignment | statement
deriving DecidableEq, Repr

/-- Variables may be changed. -/
def Role.assigns : Role → Bool
  | .operand => false
  | .assignment | .statement => true

/-- What stands in the first role may stand in the second. -/
def Role.within (role other : Role) : Bool :=
  role == .operand || role == other || other == .statement

mutual

/-- The value can stand in a role: no statement is found where an operand is evaluated. -/
def Value.fits : Value → Role → Bool
  | .list vs, role => fitAll vs role
  | .tokens t, role => t.fits role
  | .node n, role => n.fits role
  | _, _ => true

def fitAll : List Value → Role → Bool
  | [], _ => true
  | v :: vs, role => v.fits role && fitAll vs role

def Tokens.fits : Tokens → Role → Bool
  | .mk items _, role => fitAll items role

def Branch.fits : Branch → Bool
  | .mk guard body => guard.fits .statement && body.fits .statement

def branchesFit : List Branch → Bool
  | [] => true
  | b :: bs => b.fits && branchesFit bs

/-- Names, types and labels are never evaluated, so nothing is asked of them. -/
def Node.fits : Node → Role → Bool
  | .chr arg, _ | .asc arg, _ | .strReverse arg, _ | .environ arg, _ | .new arg, _ =>
    arg.fits .operand
  | .simpleName _, _ | .me, _ | .external .., _ => true
  | .member object path last, _ =>
    object.fits .operand && fitAll path .operand && last.fits .operand
  | .call _ args, _ => args.fits .operand
  | .element array index, _ => array.fits .operand && index.fits .operand
  | .operation _ operands, _ => fitAll operands .operand
  | .comparison lhs _ rhs, _ | .condition lhs _ rhs, _ => lhs.fits .operand && rhs.fits .operand
  | .sub _ _ body trailing, _ | .function _ _ body _ trailing, _ =>
    body.fits .statement && trailing.fits .statement
  | .dim initial _, role => role.assigns && initial.fits .operand
  | .assign _ index value, role => role.assigns && (index.fits .operand && value.fits .operand)
  | .forLoop _ start stop step body, role =>
    role == .statement && (start.fits .operand && stop.fits .operand && step.fits .operand &&
      body.fits .statement)
  | .forEach _ container body, role =>
    role == .statement && (container.fits .operand && body.fits .statement)
  | .whileLoop _ guard body, role | .doLoop _ guard body, role =>
    role == .statement && (guard.fits .operand && body.fits .statement)
  | .select subject cases, role =>
    role == .statement && (subject.fits .statement && cases.fits .statement)
  | .selectClause subject, role => role == .statement && subject.fits .operand
  | .caseClause values _ _ _, role => role == .statement && values.fits .operand
  | .selectCase guard body, role =>
    role == .statement && (guard.fits .statement && body.fits .statement)
  | .conditional _ branches, role => role == .statement && branchesFit branches
  | .callStatement _ args, role => role == .statement && args.fits .operand
  | .withBlock _ body, role => role == .statement && body.fits .statement
  | .openFile fileName _ _ _, role => role == .statement && fileName.fits .operand
  | .print number value, role =>
    role == .statement && (number.fits .operand && value.fits .operand)
  | .exitFor, role | .exitDo, role | .exitProcedure, role | .attributeLine .., role
  | .optionLine _, role | .parameter .., role | .globalVar .., role | .unknown _, role
  | .property .., role | .redim _, role | .goto _, role | .label _, role | .onError _, role
  | .codeModule .., role => role == .statement

end

theorem fitAll_iff (vs : List Value) (role : Role) :
    fitAll vs role = true ↔ ∀ v ∈ vs, v.fits role = true := by
  induction vs with
  | nil => simp [fitAll]
  | cons v vs ih => simp [fitAll, ih]

section

variable {role other : Role}

theorem Node.fits_mono (hrole : role.within other = true) {n : Node} (h : n.fits role = true) :
    n.fits other = true := by
  have hassigns : role.assigns = true → other.assigns = true := by
    revert hrole
    cases role <;> cases other <;> decide
  have hstatement : role = .statement → other = .statement := by
    revert hrole
    cases role <;> cases other <;> decide
  cases n with
  | dim | assign =>
    simp only [Node.fits, Bool.and_eq_true] at h ⊢
    exact ⟨hassigns h.1, h.2⟩
  | forLoop | forEach | whileLoop | doLoop | select | selectClause | caseClause | selectCase
  | conditional | callStatement | withBlock | openFile | print =>
    simp only [Node.fits, Bool.and_eq_true, beq_iff_eq] at h ⊢
    exact ⟨hstatement h.1, h.2⟩
  | exitFor | exitDo | exitProcedure | attributeLine | optionLine | parameter | globalVar | unknown
  | property | redim | goto | label | onError | codeModule =>
    simp only [Node.fits, beq_iff_eq] at h ⊢
    exact hstatement h
  | _ => exact h

mutual

theorem Value.fits_mono (hrole : role.within other = true) :
    ∀ {v : Value}, v.fits role = true → v.fits other = true
  | .list _, h => fitAll_mono hrole h
  | .tokens _, h => Tokens.fits_mono hrole h
  | .node _, h => Node.fits_mono hrole h
  | .null, _ | .bool _, _ | .int _, _ | .float _, _ | .text _, _ | .array _, _ | .routine _, _ =>
    rfl

theorem fitAll_mono (hrole : role.within other = true) :
    ∀ {vs : List Value}, fitAll vs role = true → fitAll vs other = true
  | [], _ => rfl
  | v :: vs, h => by
    rw [fitAll, Bool.and_eq_true] at h ⊢
    exact ⟨Value.fits_mono hrole h.1, fitAll_mono hrole h.2⟩

theorem Tokens.fits_mono (hrole : role.within other = true) :
    ∀ {t : Tokens}, t.fits role = true → t.fits other = true
  | .mk _ _, h => fitAll_mono hrole h

end

end

/-- A value that may stand in a role, where `strict` says whether roles are kept apart at all. -/
def Admits (strict : Prop) (role : Role) (v : Value) : Prop :=
  strict → v.fits role = true

section

variable {strict : Prop} {role : Role}

@[simp] theorem admits_null : Admits strict role .null := fun _ ↦ rfl

@[simp] theorem admits_bool (b : Bool) : Admits strict role (.bool b) := fun _ ↦ rfl

@[simp] theorem admits_int (n : Int) : Admits strict role (.int n) := fun _ ↦ rfl

@[simp] theorem admits_float (x : Float) : Admits strict role (.float x) := fun _ ↦ rfl

@[simp] theorem admits_text (s : String) : Admits strict role (.text s) := fun _ ↦ rfl

@[simp] theorem admits_empty : Admits strict role .empty := fun _ ↦ rfl

@[simp] theorem admits_ofChars (cs : List Char) : Admits strict role (.ofChars cs) := fun _ ↦ rfl

@[simp] theorem admits_ofChar (c : Char) : Admits strict role (.ofChar c) := fun _ ↦ rfl

@[simp] theorem admits_array (cell : Nat) : Admits strict role (.array cell) := fun _ ↦ rfl

@[simp] theorem admits_routine (r : Routine) : Admits strict role (.routine r) := fun _ ↦ rfl

@[simp] theorem admits_list_iff (vs : List Value) :
    Admits strict role (.list vs) ↔ ∀ v ∈ vs, Admits strict role v := by
  simp only [Admits, Value.fits, fitAll_iff]
  exact ⟨fun h v hv hs ↦ h hs v hv, fun h hs v hv ↦ h v hv hs⟩

@[simp] theorem admits_tokens_iff (t : Tokens) :
    Admits strict role (.tokens t) ↔ ∀ v ∈ t.items, Admits strict role v := by
  cases t with
  | mk items labels =>
    simp only [Admits, Value.fits, Tokens.fits, fitAll_iff, Tokens.items]
    exact ⟨fun h v hv hs ↦ h hs v hv, fun h hs v hv ↦ h v hv hs⟩

theorem Admits.of_operand {v : Value} (h : Admits strict .operand v) : Admits strict role v :=
  fun hs ↦ Value.fits_mono rfl (h hs)

end

/-- A kind of values that has all numbers, texts and numbers of cells, and the lists whose items are
of the kind. -/
class ValueKind (P : Value → Prop) : Prop where
  null : P .null
  bool (b : Bool) : P (.bool b)
  int (n : Int) : P (.int n)
  float (x : Float) : P (.float x)
  text (s : String) : P (.text s)
  array (cell : Nat) : P (.array cell)
  list_iff (vs : List Value) : P (.list vs) ↔ ∀ v ∈ vs, P v
  items {t : Tokens} : P (.tokens t) → ∀ v ∈ t.items, P v

instance {strict : Prop} {role : Role} : ValueKind (Admits strict role) :=
  ⟨admits_null, admits_bool, admits_int, admits_float, admits_text, admits_array, admits_list_iff,
    (admits_tokens_iff _).mp⟩

end VbaTrace
