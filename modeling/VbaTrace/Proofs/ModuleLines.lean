import VbaTrace.Engine.Lines
import VbaTrace.Proofs.Continuations
import VbaTrace.Proofs.ModuleVariables
import VbaTrace.Proofs.ReadingFaults

/-!
Loading a module line by line. One step takes a line without words, a line that is shown because it
does not match, a line that is read, or a block with its end line (`Step`); `Steps` is a run of them,
with the tokens that are read and the text that is printed on the way. Where no step can be taken
from a line, either the code is cut off there (`Cut`) or reading raises a fault (`Stuck`); the latter
is never a position out of range (`Stuck.ne_outOfRange`).

So a text is loaded as one module exactly when its lines are used up by steps, and fails for a
position out of range exactly when the steps lead to a place where it is cut off; a failure leaves
the machine and the modules as they are (`loadModuleByLines_iff`).
-/

set_option autoImplicit false

namespace VbaTrace.Engine

open Grammar (moduleOf)

/-! Printing -/

/-- The engine after a text was printed. -/
def printing (e : Engine) (s : String) : Engine :=
  { e with printed := e.printed ++ s }

@[simp] theorem printing_empty (e : Engine) : e.printing "" = e := by
  unfold printing
  rw [String.append_empty]

@[simp] theorem printing_printing (e : Engine) (s t : String) :
    (e.printing s).printing t = e.printing (s ++ t) := by
  unfold printing
  rw [String.append_assoc]

theorem bind_congr_run {α β : Type} {x y : Command α} {e e' : Engine} (h : x e = y e')
    (g : α → Command β) : (x >>= g) e = (y >>= g) e' := by
  change EStateM.bind x g e = EStateM.bind y g e'
  rw [EStateM.bind, EStateM.bind, h]

theorem bind_of_error {α β : Type} {x : Command α} {e e' : Engine} {f : Fault}
    (h : x e = .error f e') (g : α → Command β) : (x >>= g) e = .error f e' :=
  bind_congr_run (y := throw f) h g

theorem map_congr_run {α β : Type} {x y : Command α} {e e' : Engine} (h : x e = y e')
    (g : α → β) : (g <$> x) e = (g <$> y) e' := by
  rw [map_eq_pure_bind, map_eq_pure_bind, bind_congr_run h]

theorem map_of_ok {α β : Type} {x : Command α} {e e' : Engine} {a : α} (h : x e = .ok a e')
    (g : α → β) : (g <$> x) e = .ok (g a) e' :=
  map_congr_run (y := pure a) h g

theorem map_of_error {α β : Type} {x : Command α} {e e' : Engine} {f : Fault}
    (h : x e = .error f e') (g : α → β) : (g <$> x) e = .error f e' :=
  map_congr_run (y := throw f) h g

/-- What is shown of a text whose rest was not read. -/
def unreadText (text : String) (place : Nat) : String :=
  let cs := Text.expandTabs text.toList
  String.ofList (lineAround cs place) ++ "\n" ++
    (String.ofList (List.replicate (columnOf cs place - 1) ' ') ++ "^" ++ "\n" ++
      (endMessage cs place ++ "\n"))

theorem printUnread_eq (text : String) (place : Nat) (e : Engine) :
    printUnread text place e = .ok () (e.printing (unreadText text place)) := by
  have hlines : printUnread text place e =
      .ok () (((e.printing _).printing _).printing _) := rfl
  rw [hlines, printing_printing, printing_printing]
  rfl

/-! Reading one line -/

/-- What a text is read as, nothing when it does not match, and what is printed meanwhile. -/
def answer (heading : String) (r : Grammar.Rule) (all : Bool) (text : String) :
    Except Fault (Option Tokens) × String :=
  let (result, out) := Grammar.readEchoing r all text
  match result with
  | .ok t => (.ok (some t), out)
  | .error (.noMatch place) => (.ok none, out ++ heading ++ unreadText text (place.getD 0))
  | .error f => (.error f, out)

theorem readOrShow_eq (heading : String) (r : Grammar.Rule) (all : Bool) (text : String)
    (e : Engine) : readOrShow heading r all text e =
      ofExcept (answer heading r all text).1 (e.printing (answer heading r all text).2) := by
  unfold readOrShow answer
  rcases Grammar.readEchoing r all text with ⟨f | t, out⟩
  · cases f with
    | noMatch place =>
      dsimp only
      rw [← printing_printing, ← printing_printing]
      have hshown := printUnread_eq text (place.getD 0) ((e.printing out).printing heading)
      exact bind_of_ok hshown fun _ ↦ pure none
    | _ => rfl
  · rfl

theorem answer_error {heading text : String} {r : Grammar.Rule} {all : Bool} {f : Fault}
    (h : (answer heading r all text).1 = .error f) : f = .tooDeep ∨ f ∈ Grammar.builderFaults := by
  unfold answer at h
  rcases hread : Grammar.readEchoing r all text with ⟨g | t, out⟩
  · rw [hread] at h
    obtain ⟨place, rfl⟩ | hfault := Grammar.readEchoing_error (congrArg Prod.fst hread)
    · exact nomatch h
    · cases g with
      | noMatch place => exact nomatch h
      | _ =>
        cases h
        exact hfault
  · rw [hread] at h
    exact nomatch h

/-- What a line outside blocks is read as. -/
def outer (kind : LineKind) (line : String) : Except Fault (Option Tokens) × String :=
  answer "*** PARSING ERROR (2) ***\n" kind.rule kind.readsWholeLine line

/-- What a line of a block is read as. -/
def inner (line : String) : Except Fault (Option Tokens) × String :=
  answer "*** PARSING ERROR (3) ***\n" .anyLine true line

/-! Blocks and steps -/

/-- The line starts a block that the given words end. -/
def Opens (line : String) (t : Tokens) (blockEnd : List String) (out : String) : Prop :=
  ∃ kind, lineKind (lineWords line) = .ok kind ∧ outer kind line = (.ok (some t), out) ∧
    kind.blockEnd? = some blockEnd

/-- The lines belong to the body of a block: none of them ends it, and each is read or shown. -/
inductive Body (blockEnd : List String) : List String → List Value → String → Prop
  | nil : Body blockEnd [] [] ""
  | cons {line : String} {lines : List String} {t : Option Tokens} {vs : List Value}
      {out out' : String} (hgoes : ¬blockEnd <+: lineWords line)
      (hread : inner line = (.ok t, out)) (hlines : Body blockEnd lines vs out') :
      Body blockEnd (line :: lines) ((t.map Tokens.items).getD [] ++ vs) (out ++ out')

/-- One step: the lines that it takes away, with their tokens and what is printed. -/
inductive Step : List String → List Value → String → List String → Prop
  | skipped {line : String} {lines : List String} (hwords : lineWords line = []) :
      Step (line :: lines) [] "" lines
  | shown {line : String} {lines : List String} {kind : LineKind} {out : String}
      (hkind : lineKind (lineWords line) = .ok kind) (hread : outer kind line = (.ok none, out)) :
      Step (line :: lines) [] out lines
  | read {line : String} {lines : List String} {kind : LineKind} {t : Tokens} {out : String}
      (hkind : lineKind (lineWords line) = .ok kind)
      (hread : outer kind line = (.ok (some t), out)) (hend : kind.blockEnd? = none) :
      Step (line :: lines) t.items out lines
  | block {line last : String} {body lines : List String} {t : Tokens} {blockEnd : List String}
      {statements : List Value} {out out' : String} (hopens : Opens line t blockEnd out)
      (hbody : Body blockEnd body statements out') (hlast : blockEnd <+: lineWords last) :
      Step (line :: (body ++ last :: lines)) (startBlock statements t.items) (out ++ out') lines

/-- A run of steps. -/
inductive Steps : List String → List Value → String → List String → Prop
  | refl (lines : List String) : Steps lines [] "" lines
  | step {lines rest rest' : List String} {vs ws : List Value} {out out' : String}
      (hstep : Step lines vs out rest) (hsteps : Steps rest ws out' rest') :
      Steps lines (vs ++ ws) (out ++ out') rest'

/-- The code is cut off: nothing follows the word that makes a declaration public or private, or the
block that the first line starts has no end. -/
inductive Cut : List String → String → Prop
  | bare {line : String} {lines : List String}
      (hwords : lineWords line = ["public"] ∨ lineWords line = ["private"]) : Cut (line :: lines) ""
  | unended {line : String} {body : List String} {t : Tokens} {blockEnd : List String}
      {statements : List Value} {out out' : String} (hopens : Opens line t blockEnd out)
      (hbody : Body blockEnd body statements out') : Cut (line :: body) (out ++ out')

/-- Reading raises a fault, on the first line or in the block that it starts. -/
inductive Stuck (f : Fault) : List String → String → Prop
  | outside {line : String} {lines : List String} {kind : LineKind} {out : String}
      (hkind : lineKind (lineWords line) = .ok kind) (hread : outer kind line = (.error f, out)) :
      Stuck f (line :: lines) out
  | inside {line last : String} {body lines : List String} {t : Tokens} {blockEnd : List String}
      {statements : List Value} {out out' out'' : String} (hopens : Opens line t blockEnd out)
      (hbody : Body blockEnd body statements out') (hgoes : ¬blockEnd <+: lineWords last)
      (hread : inner last = (.error f, out'')) :
      Stuck f (line :: (body ++ last :: lines)) (out ++ (out' ++ out''))

theorem Stuck.ne_outOfRange {f : Fault} {lines : List String} {out : String}
    (h : Stuck f lines out) : f ≠ .outOfRange := by
  have hfault : f = .tooDeep ∨ f ∈ Grammar.builderFaults := by
    cases h with
    | outside _ hread => exact answer_error (congrArg Prod.fst hread)
    | inside _ _ _ hread => exact answer_error (congrArg Prod.fst hread)
  rcases hfault with rfl | hfault
  · exact nofun
  · rintro rfl
    revert hfault
    decide

/-! Reading lines -/

section

variable {line last : String} {body lines rest : List String} {kind : LineKind} {t : Tokens}
  {blockEnd : List String} {vs statements : List Value} {out out' : String} {f : Fault}

theorem readOrShow_inner {x : Except Fault (Option Tokens)} (h : inner line = (x, out))
    (e : Engine) : readOrShow "*** PARSING ERROR (3) ***\n" .anyLine true line e =
      ofExcept x (e.printing out) := by
  have hread := readOrShow_eq "*** PARSING ERROR (3) ***\n" .anyLine true line e
  rw [← inner, h] at hread
  exact hread

theorem readOrShow_outer {x : Except Fault (Option Tokens)} (h : outer kind line = (x, out))
    (e : Engine) :
    readOrShow "*** PARSING ERROR (2) ***\n" kind.rule kind.readsWholeLine line e =
      ofExcept x (e.printing out) := by
  have hread := readOrShow_eq "*** PARSING ERROR (2) ***\n" kind.rule kind.readsWholeLine line e
  rw [← outer, h] at hread
  exact hread

theorem readBlock_cons (line : String) (lines : List String) :
    readBlock (line :: lines) =
      readOrShow "*** PARSING ERROR (3) ***\n" .anyLine true line >>= fun t ↦
        ((t.map Tokens.items).getD [] ++ ·) <$> readBlock lines := by
  unfold readBlock
  rw [List.mapM_cons]
  simp only [bind_assoc, pure_bind, List.flatMap_cons, map_bind, map_pure]

/-- The lines of a body are read one by one, before those that follow them. -/
theorem Body.readBlock_append (h : Body blockEnd body statements out) (lines : List String)
    (e : Engine) : readBlock (body ++ lines) e =
      ((statements ++ ·) <$> readBlock lines) (e.printing out) := by
  induction h generalizing e with
  | nil =>
    rw [printing_empty, List.nil_append]
    simp only [List.nil_append, id_map']
  | @cons line body t vs out out' _ hread _ ih =>
    have hline : readOrShow "*** PARSING ERROR (3) ***\n" .anyLine true line e =
        .ok t (e.printing out) := readOrShow_inner hread e
    rw [List.cons_append, readBlock_cons, bind_of_ok hline, ← printing_printing,
      map_congr_run (ih (e.printing out)), Functor.map_map]
    simp only [List.append_assoc]

theorem Body.readBlock_eq (h : Body blockEnd body statements out) (e : Engine) :
    readBlock body e = .ok statements (e.printing out) := by
  have happend := h.readBlock_append [] e
  rw [List.append_nil] at happend
  rw [happend, map_of_ok (show readBlock [] (e.printing out) = .ok [] (e.printing out) from rfl),
    List.append_nil]

theorem Body.readBlock_of_error (h : Body blockEnd body statements out)
    (hread : inner last = (.error f, out')) (lines : List String) (e : Engine) :
    readBlock (body ++ last :: lines) e = .error f (e.printing (out ++ out')) := by
  have hline : readOrShow "*** PARSING ERROR (3) ***\n" .anyLine true last (e.printing out) =
      .error f ((e.printing out).printing out') := readOrShow_inner hread _
  rw [h.readBlock_append, map_of_error, ← printing_printing]
  rw [readBlock_cons, bind_of_error hline]

theorem linesBefore_cons_of_end (h : blockEnd <+: lineWords line) (lines : List String) :
    linesBefore blockEnd (line :: lines) = [] := by
  have hend : blockEnd.isPrefixOf (lineWords line) = true := List.isPrefixOf_iff_prefix.mpr h
  exact List.takeWhile_cons_of_neg (by simp [hend])

theorem linesBefore_cons_of_not (h : ¬blockEnd <+: lineWords line) (lines : List String) :
    linesBefore blockEnd (line :: lines) = line :: linesBefore blockEnd lines := by
  have hgoes : blockEnd.isPrefixOf (lineWords line) = false := by
    rw [← Bool.not_eq_true, List.isPrefixOf_iff_prefix]
    exact h
  exact List.takeWhile_cons_of_pos (by simp [hgoes])

/-- A body is part of what stands before the line that ends its block. -/
theorem Body.linesBefore_append (h : Body blockEnd body statements out) (lines : List String) :
    linesBefore blockEnd (body ++ lines) = body ++ linesBefore blockEnd lines := by
  induction h with
  | nil => rfl
  | cons hgoes _ _ ih =>
    rw [List.cons_append, linesBefore_cons_of_not hgoes, ih, List.cons_append]

theorem readLines_skipped (h : lineWords line = []) (lines : List String) :
    readLines (line :: lines) = readLines lines := by
  rw [readLines, h]
  rfl

theorem readLines_bare (h : lineWords line = ["public"] ∨ lineWords line = ["private"])
    (lines : List String) (e : Engine) : readLines (line :: lines) e = .error .outOfRange e := by
  rcases h with h | h <;> rw [readLines, h] <;> rfl

/-- What is left to do when the line before these has been read. -/
def afterLine (kind : LineKind) (lines : List String) : Option Tokens → Command (List Value)
  | none => readLines lines
  | some t =>
    match kind.blockEnd? with
    | none => (t.items ++ ·) <$> readLines lines
    | some blockEnd => do
      let body := linesBefore blockEnd lines
      let statements ← readBlock body
      let rest := lines.drop body.length
      if rest.isEmpty then throw .outOfRange
      else (startBlock statements t.items ++ ·) <$> readLines rest.tail

theorem readLines_of_kind (hkind : lineKind (lineWords line) = .ok kind) (lines : List String) :
    readLines (line :: lines) =
      readOrShow "*** PARSING ERROR (2) ***\n" kind.rule kind.readsWholeLine line >>=
        afterLine kind lines := by
  have hwords : (lineWords line).isEmpty = false := by
    rw [List.isEmpty_eq_false_iff]
    intro hnil
    rw [hnil] at hkind
    exact nomatch hkind
  rw [readLines]
  dsimp only
  rw [hwords, if_neg Bool.false_ne_true, hkind]
  refine congrArg (readOrShow _ _ _ _ >>= ·) (funext fun t ↦ ?_)
  cases t with
  | none => rfl
  | some t =>
    unfold afterLine
    dsimp only
    cases kind.blockEnd? with
    | none => simp only [bind_pure_comp]
    | some blockEnd =>
      refine congrArg (readBlock _ >>= ·) (funext fun statements ↦ ?_)
      split <;> simp only [bind_pure_comp]
      rfl

theorem readLines_of_outer {x : Except Fault (Option Tokens)}
    (hkind : lineKind (lineWords line) = .ok kind) (hread : outer kind line = (x, out))
    (lines : List String) (e : Engine) :
    readLines (line :: lines) e = (ofExcept x >>= afterLine kind lines) (e.printing out) := by
  rw [readLines_of_kind hkind, bind_congr_run (readOrShow_outer hread e)]

/-- The lines up to the end of a block are its body, and those behind the end line follow. -/
theorem Opens.readLines_eq (h : Opens line t blockEnd out) (lines : List String) (e : Engine) :
    readLines (line :: lines) e =
      (readBlock (linesBefore blockEnd lines) >>= fun statements ↦
        if (lines.drop (linesBefore blockEnd lines).length).isEmpty then throw .outOfRange
        else (startBlock statements t.items ++ ·) <$>
          readLines (lines.drop (linesBefore blockEnd lines).length).tail) (e.printing out) := by
  obtain ⟨kind, hkind, hread, hend⟩ := h
  rw [readLines_of_outer hkind hread]
  change afterLine kind lines (some t) (e.printing out) = _
  unfold afterLine
  dsimp only
  rw [hend]

/-- The tokens of a step come first, and what it prints is printed before the rest. -/
theorem Step.readLines_eq (h : Step lines vs out rest) (e : Engine) :
    readLines lines e = ((vs ++ ·) <$> readLines rest) (e.printing out) := by
  cases h with
  | skipped hwords =>
    rw [readLines_skipped hwords, printing_empty]
    simp only [List.nil_append, id_map']
  | shown hkind hread =>
    rw [readLines_of_outer hkind hread]
    simp only [List.nil_append, id_map']
    rfl
  | read hkind hread hend =>
    rw [readLines_of_outer hkind hread]
    change afterLine _ rest (some _) _ = _
    unfold afterLine
    dsimp only
    rw [hend]
  | block hopens hbody hlast =>
    rw [hopens.readLines_eq, hbody.linesBefore_append, linesBefore_cons_of_end hlast,
      List.append_nil, bind_of_ok (hbody.readBlock_eq _), printing_printing, List.drop_left]
    rfl

theorem Steps.readLines_eq (h : Steps lines vs out rest) (e : Engine) :
    readLines lines e = ((vs ++ ·) <$> readLines rest) (e.printing out) := by
  induction h generalizing e with
  | refl lines =>
    rw [printing_empty]
    simp only [List.nil_append, id_map']
  | step hstep _ ih =>
    rw [hstep.readLines_eq, map_congr_run (ih _), Functor.map_map, printing_printing]
    simp only [List.append_assoc]

theorem Cut.readLines_eq (h : Cut lines out) (e : Engine) :
    readLines lines e = .error .outOfRange (e.printing out) := by
  cases h with
  | bare hwords => rw [readLines_bare hwords, printing_empty]
  | @unended line body t blockEnd statements out out' hopens hbody =>
    have hbefore : linesBefore blockEnd body = body := by
      have happend := hbody.linesBefore_append []
      rw [List.append_nil] at happend
      exact happend.trans (List.append_nil body)
    rw [hopens.readLines_eq, hbefore, bind_of_ok (hbody.readBlock_eq _), printing_printing,
      List.drop_length]
    rfl

theorem Stuck.readLines_eq (h : Stuck f lines out) (e : Engine) :
    readLines lines e = .error f (e.printing out) := by
  cases h with
  | outside hkind hread =>
    rw [readLines_of_outer hkind hread]
    rfl
  | inside hopens hbody hgoes hread =>
    rw [hopens.readLines_eq, hbody.linesBefore_append, linesBefore_cons_of_not hgoes,
      bind_of_error (hbody.readBlock_of_error hread _ _), printing_printing]

/-! The end of a run -/

/-- The lines behind the start of a block: its body and the line that ends it, only a body, or a body
and a line that raises a fault. -/
theorem block_cases (blockEnd lines : List String) :
    (∃ body last rest statements out, lines = body ++ last :: rest ∧
        Body blockEnd body statements out ∧ blockEnd <+: lineWords last) ∨
      (∃ statements out, Body blockEnd lines statements out) ∨
      ∃ body last rest statements out f out', lines = body ++ last :: rest ∧
        Body blockEnd body statements out ∧ ¬blockEnd <+: lineWords last ∧
          inner last = (.error f, out') := by
  induction lines with
  | nil => exact .inr (.inl ⟨[], "", .nil⟩)
  | cons line lines ih =>
    by_cases hends : blockEnd <+: lineWords line
    · exact .inl ⟨[], line, lines, [], "", rfl, .nil, hends⟩
    · rcases hread : inner line with ⟨f | t, out⟩
      · exact .inr (.inr ⟨[], line, lines, [], "", f, out, rfl, .nil, hends, hread⟩)
      · rcases ih with ⟨body, last, rest, _, _, rfl, hbody, hlast⟩ | ⟨_, _, hbody⟩ |
          ⟨body, last, rest, _, _, f, out', rfl, hbody, hlast⟩
        · exact .inl ⟨line :: body, last, rest, _, _, rfl, .cons hends hread hbody, hlast⟩
        · exact .inr (.inl ⟨_, _, .cons hends hread hbody⟩)
        · exact .inr (.inr ⟨line :: body, last, rest, _, _, f, out', rfl,
            .cons hends hread hbody, hlast⟩)

/-- A line with words has a kind, unless its only word makes something public or private. -/
theorem lineKind_cases {words : List String} (hwords : words ≠ []) :
    (∃ kind, lineKind words = .ok kind) ∨ words = ["public"] ∨ words = ["private"] := by
  obtain ⟨word, words, rfl⟩ := List.exists_cons_of_ne_nil hwords
  unfold lineKind
  rw [List.head?_cons, Option.any_some, List.tail_cons]
  cases hword : ["public", "private"].contains word with
  | false => exact .inl ⟨_, rfl⟩
  | true =>
    cases words with
    | nil => simpa using hword
    | cons second words => exact .inl ⟨_, rfl⟩

theorem step_or_ends (line : String) (lines : List String) :
    (∃ vs out rest, Step (line :: lines) vs out rest) ∨ (∃ out, Cut (line :: lines) out) ∨
      ∃ f out, Stuck f (line :: lines) out := by
  by_cases hwords : lineWords line = []
  · exact .inl ⟨_, _, _, .skipped hwords⟩
  obtain ⟨kind, hkind⟩ | hbare := lineKind_cases hwords
  · rcases hread : outer kind line with ⟨f | _ | t, out⟩
    · exact .inr (.inr ⟨f, out, .outside hkind hread⟩)
    · exact .inl ⟨_, _, _, .shown hkind hread⟩
    · cases hend : kind.blockEnd? with
      | none => exact .inl ⟨_, _, _, .read hkind hread hend⟩
      | some blockEnd =>
        have hopens : Opens line t blockEnd out := ⟨kind, hkind, hread, hend⟩
        rcases block_cases blockEnd lines with ⟨body, last, rest, _, _, rfl, hbody, hlast⟩ |
          ⟨_, _, hbody⟩ | ⟨body, last, rest, _, _, f, out', rfl, hbody, hgoes, hfault⟩
        · exact .inl ⟨_, _, _, .block hopens hbody hlast⟩
        · exact .inr (.inl ⟨_, .unended hopens hbody⟩)
        · exact .inr (.inr ⟨f, _, .inside hopens hbody hgoes hfault⟩)
  · exact .inr (.inl ⟨_, .bare hbare⟩)

theorem Step.length_lt (h : Step lines vs out rest) : rest.length < lines.length := by
  cases h with
  | block => simp only [List.length_cons, List.length_append]; omega
  | _ => exact Nat.lt_succ_self _

/-- Steps lead to the end of the lines, or to a line from which there is none. -/
theorem steps_end (lines : List String) : ∃ vs out rest, Steps lines vs out rest ∧
    (rest = [] ∨ (∃ out', Cut rest out') ∨ ∃ f out', Stuck f rest out') := by
  induction hlength : lines.length using Nat.strongRecOn generalizing lines with
  | ind n ih =>
    cases lines with
    | nil => exact ⟨_, _, [], .refl [], .inl rfl⟩
    | cons line lines =>
      rcases step_or_ends line lines with ⟨vs, out, rest, hstep⟩ | hends
      · have hshorter : rest.length < n := hlength ▸ hstep.length_lt
        obtain ⟨ws, out', rest', hsteps, hrest⟩ := ih _ hshorter rest rfl
        exact ⟨_, _, rest', .step hstep hsteps, hrest⟩
      · exact ⟨_, _, line :: lines, .refl _, .inr hends⟩

end

/-! Loading a module -/

section

variable {code : String} {vs : List Value} {out out' : String} {rest : List String} {f : Fault}

/-- The lines of a text, with continued lines put together. -/
def logicalLines (code : String) : List String :=
  (Text.lines (Source.joinContinued (Source.endLine code)).toList).map String.ofList

/-- The engine with one more module, whose procedures are global names. -/
def withModule (e : Engine) (n : Node) : Engine :=
  { e with
    modules := n :: e.modules
    machine := e.machine.declaring { n.declarations with globalVars := [] } }

theorem loadModuleByLines_eq (hcode : code ≠ "") (e : Engine) :
    loadModuleByLines code e = (readLines (logicalLines code) >>= fun vs ↦ do
      printLine (moduleOf (.ofList vs)).render
      addModule true (moduleOf (.ofList vs))) e := by
  unfold loadModuleByLines
  rw [Source.collapse_of_ne hcode]
  rfl

theorem loadModuleByLines_of_steps (hcode : code ≠ "")
    (h : Steps (logicalLines code) vs out []) (e : Engine) :
    loadModuleByLines code e =
      .ok () ((e.printing (out ++ ((moduleOf (.ofList vs)).render ++ "\n"))).withModule
        (moduleOf (.ofList vs))) := by
  have hlines : readLines (logicalLines code) e = .ok vs (e.printing out) := by
    have hend : readLines [] (e.printing out) = .ok [] (e.printing out) := by
      rw [readLines]
      rfl
    rw [h.readLines_eq, map_of_ok hend, List.append_nil]
  rw [loadModuleByLines_eq hcode, bind_of_ok hlines, ← printing_printing]
  rfl

theorem loadModuleByLines_of_error (hcode : code ≠ "")
    (h : Steps (logicalLines code) vs out rest)
    (hrest : ∀ e, readLines rest e = .error f (e.printing out')) (e : Engine) :
    loadModuleByLines code e = .error f (e.printing (out ++ out')) := by
  have hlines : readLines (logicalLines code) e = .error f (e.printing (out ++ out')) := by
    rw [h.readLines_eq, map_of_error (hrest _), printing_printing]
  rw [loadModuleByLines_eq hcode, bind_of_error hlines]

/-- A text is loaded as one module exactly when steps use up its lines. It fails for a position out
of range exactly when they lead to a place where the code is cut off, and otherwise only when reading
a line raises a fault. A failure leaves all but what was printed unchanged. -/
theorem loadModuleByLines_iff (hcode : code ≠ "") (e e' : Engine) :
    (loadModuleByLines code e = .ok () e' ↔ ∃ vs out, Steps (logicalLines code) vs out [] ∧
      e' = (e.printing (out ++ ((moduleOf (.ofList vs)).render ++ "\n"))).withModule
        (moduleOf (.ofList vs))) ∧
    (loadModuleByLines code e = .error .outOfRange e' ↔ ∃ vs out rest out',
      Steps (logicalLines code) vs out rest ∧ Cut rest out' ∧ e' = e.printing (out ++ out')) ∧
    ∀ f, f ≠ .outOfRange → (loadModuleByLines code e = .error f e' ↔ ∃ vs out rest out',
      Steps (logicalLines code) vs out rest ∧ Stuck f rest out' ∧
        e' = e.printing (out ++ out')) := by
  have hends := steps_end (logicalLines code)
  refine ⟨⟨fun h ↦ ?_, ?_⟩, ⟨fun h ↦ ?_, ?_⟩, fun f hf ↦ ⟨fun h ↦ ?_, ?_⟩⟩
  · obtain ⟨vs, out, rest, hsteps, rfl | ⟨out', hcut⟩ | ⟨f, out', hstuck⟩⟩ := hends
    · rw [loadModuleByLines_of_steps hcode hsteps] at h
      cases h
      exact ⟨vs, out, hsteps, rfl⟩
    · rw [loadModuleByLines_of_error hcode hsteps hcut.readLines_eq] at h
      exact nomatch h
    · rw [loadModuleByLines_of_error hcode hsteps hstuck.readLines_eq] at h
      exact nomatch h
  · rintro ⟨vs, out, hsteps, rfl⟩
    exact loadModuleByLines_of_steps hcode hsteps e
  · obtain ⟨vs, out, rest, hsteps, rfl | ⟨out', hcut⟩ | ⟨f, out', hstuck⟩⟩ := hends
    · rw [loadModuleByLines_of_steps hcode hsteps] at h
      exact nomatch h
    · rw [loadModuleByLines_of_error hcode hsteps hcut.readLines_eq] at h
      cases h
      exact ⟨vs, out, rest, out', hsteps, hcut, rfl⟩
    · rw [loadModuleByLines_of_error hcode hsteps hstuck.readLines_eq] at h
      cases h
      exact absurd rfl hstuck.ne_outOfRange
  · rintro ⟨vs, out, rest, out', hsteps, hcut, rfl⟩
    exact loadModuleByLines_of_error hcode hsteps hcut.readLines_eq e
  · obtain ⟨vs, out, rest, hsteps, rfl | ⟨out', hcut⟩ | ⟨f', out', hstuck⟩⟩ := hends
    · rw [loadModuleByLines_of_steps hcode hsteps] at h
      exact nomatch h
    · rw [loadModuleByLines_of_error hcode hsteps hcut.readLines_eq] at h
      cases h
      exact absurd rfl hf
    · rw [loadModuleByLines_of_error hcode hsteps hstuck.readLines_eq] at h
      cases h
      exact ⟨vs, out, rest, out', hsteps, hstuck, rfl⟩
  · rintro ⟨vs, out, rest, out', hsteps, hstuck, rfl⟩
    exact loadModuleByLines_of_error hcode hsteps hstuck.readLines_eq e

theorem opens_subStart : ∃ t out, Opens "Sub f()\n" t ["end", "sub"] out := by
  have hread : (outer .sub "Sub f()\n").1.toOption.join.isSome = true := by decide +kernel
  rcases houter : outer .sub "Sub f()\n" with ⟨f | _ | t, out⟩
  · rw [houter] at hread
    exact nomatch hread
  · rw [houter] at hread
    exact nomatch hread
  · exact ⟨t, out, .sub, by decide, houter, rfl⟩

/-- A procedure without its end line, behind a comment. -/
theorem loadModuleByLines_iff_unended : "'\nSub f()" ≠ "" ∧
    ∃ e', loadModuleByLines "'\nSub f()" {} = .error .outOfRange e' := by
  have hne : "'\nSub f()" ≠ "" := by decide
  have hlines : logicalLines "'\nSub f()" = ["'\n", "Sub f()\n"] := by decide +kernel
  obtain ⟨t, out, hopens⟩ := opens_subStart
  have hsteps : Steps (logicalLines "'\nSub f()") ([] ++ []) ("" ++ "") ["Sub f()\n"] := by
    rw [hlines]
    exact .step (.skipped (by decide)) (.refl _)
  have hcut : Cut ["Sub f()\n"] (out ++ "") := .unended hopens .nil
  exact ⟨hne, _, (loadModuleByLines_iff hne {} _).2.1.mpr ⟨_, _, _, _, hsteps, hcut, rfl⟩⟩

/-- Not every text is loaded: one that ends behind the word for a public declaration fails. -/
theorem cut_code_not_loaded : ¬ ∀ code : String, code ≠ "" →
    ∃ e', loadModuleByLines code {} = .ok () e' := by
  intro h
  obtain ⟨e', hload⟩ := h "Public" (by decide)
  have hlines : logicalLines "Public" = ["Public\n"] := by decide +kernel
  have hsteps : Steps (logicalLines "Public") [] "" ["Public\n"] := by
    rw [hlines]
    exact .refl _
  have hcut : Cut ["Public\n"] "" := .bare (.inl (by decide))
  rw [loadModuleByLines_of_error (by decide) hsteps hcut.readLines_eq] at hload
  exact nomatch hload

end

end VbaTrace.Engine
