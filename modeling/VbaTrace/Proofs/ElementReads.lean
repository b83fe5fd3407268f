import VbaTrace.Proofs.CharacterLoops
import VbaTrace.Proofs.OwnCalls

/-!
Reads of elements. A call whose name stands for a list or a text is a read: it gives the item of the
list at the place that its first argument tells (`evaluate_call_list`), or the number of the
character of the text there (`evaluate_call_text`). A list with one text in it is taken for that
text, so that of all lists exactly those with one text of several characters are read differently by
a call than as the value of a call (`call_reads_item_iff`).
-/

set_option autoImplicit false

namespace VbaTrace

/-- What a name stands for, with a list in a cell opened. -/
def Machine.contents? (m : Machine) (name : String) : Option Value :=
  (m.resolve? name).map m.heap.opened

namespace Semantics

/-! Items and characters -/

theorem itemAt?_natCast {α : Type} (items : List α) (place : Nat) :
    itemAt? items place = items[place]? :=
  if_pos (Int.natCast_nonneg place)

theorem elementOf_single (s : String) : elementOf [.text s] 0 = .ofChars (s.toList.take 1) := by
  change ((itemAt? s.toList (0 : Nat)).map Value.ofChar).getD .empty = _
  rw [itemAt?_natCast]
  cases s.toList with
  | nil => rfl
  | cons c cs => rfl

theorem elementOf_of_not_single {items : List Value} (hitems : ∀ s, items ≠ [.text s])
    {place : Nat} (hplace : place < items.length) : elementOf items place = items[place] := by
  unfold elementOf
  split
  · next s => exact absurd rfl (hitems s)
  · rw [itemAt?_natCast, List.getElem?_eq_getElem hplace, Option.getD_some]

/-- Only a list of one text with several characters is not read item by item. -/
theorem elementOf_eq_iff {items : List Value} {place : Nat} (hplace : place < items.length) :
    elementOf items place = items[place] ↔ ¬ ∃ s, items = [.text s] ∧ 1 < s.length := by
  by_cases hsingle : ∃ s, items = [.text s]
  · obtain ⟨s, rfl⟩ := hsingle
    obtain rfl : place = 0 := Nat.lt_one_iff.mp hplace
    have hshort : (elementOf [.text s] (0 : Nat) = .text s) ↔ s.toList.take 1 = s.toList := by
      change elementOf [.text s] 0 = _ ↔ _
      rw [elementOf_single, Value.ofChars, Value.text.injEq, ← String.toList_inj,
        String.toList_ofList]
    change elementOf [.text s] (0 : Nat) = .text s ↔ _
    rw [hshort, List.take_eq_self_iff, String.length_toList]
    simp
  · have hnot : ∀ s, items ≠ [.text s] := fun s hs ↦ hsingle ⟨s, hs⟩
    simp [elementOf_of_not_single hnot hplace, hnot]

theorem codeAt_natCast (s : String) (place : Nat) :
    codeAt s (.int place) = ((s.toList[place]?).map fun c ↦ Value.int c.toNat).getD .null := by
  change ((itemAt? s.toList place).map fun c ↦ Value.int c.toNat).getD .null = _
  rw [itemAt?_natCast]

/-! Calls that read -/

section

variable {rounds depth place : Nat} {name s : String} {params : Value}
  {args rest items : List Value} {m m₁ : Machine}

/-- The machine in which a call looks for its name: a notable one has been recorded. -/
def afterPrelude (name : String) (args : List Value) (m : Machine) : Machine :=
  if isNotable name then
    { m with
      actions := m.actions.push
        ⟨.text name, .text (spread ", " (args.map fun v ↦ (m.heap.resolve v).quoted)),
          .text "Interesting Function Call"⟩ }
  else m

theorem contents?_afterPrelude (name : String) (args : List Value) (m : Machine) (other : String) :
    (afterPrelude name args m).contents? other = m.contents? other := by
  unfold afterPrelude
  split_ifs <;> rfl

theorem heap_afterPrelude (name : String) (args : List Value) (m : Machine) :
    (afterPrelude name args m).heap = m.heap := by
  unfold afterPrelude
  split_ifs <;> rfl

theorem callPrelude_of_ok {evaluate : Evaluator}
    (hargs : evalArguments evaluate params m = .ok args m₁)
    (hshown : (m₁.heap.resolve (.list args)).isWritable = true) :
    callPrelude evaluate name params m = .ok args (afterPrelude name args m₁) := by
  have hcall : callArguments evaluate params m = .ok args m₁ := by
    unfold callArguments
    rw [Eval.bind_of_ok hargs, Eval.bind_of_ok (ensureWritable_of_isWritable hshown)]
    rfl
  unfold callPrelude afterPrelude
  rw [Eval.bind_of_ok hcall]
  split_ifs <;> rfl

/-- A call of a list or a text is decided by what its name stands for when its arguments have been
evaluated. -/
theorem evaluate_call_of_contents {v : Value} (own : Arguments)
    (hargs : evalArguments (evaluate rounds depth) params m = .ok args m₁)
    (hshown : (m₁.heap.resolve (.list args)).isWritable = true)
    (hread : ∀ m₂ : Machine, m₂.contents? name = m₁.contents? name → m₂.heap = m₁.heap →
      callNamed (evaluate rounds depth) name args m₂ = .ok v m₂) :
    evaluate rounds (depth + 1) (.node (.call name params)) own m =
      .ok v (afterPrelude name args m₁) := by
  change evalCall (evaluate rounds depth) name params m = _
  rw [evalCall_eq, Eval.bind_of_ok (callPrelude_of_ok hargs hshown)]
  exact Eval.handle_of_ok
    (hread _ (contents?_afterPrelude name args m₁ name) (heap_afterPrelude name args m₁)) _ _

theorem callNamed_list {evaluate : Evaluator} (hlist : m.contents? name = some (.list items)) :
    callNamed evaluate name (.int place :: rest) m =
      if (m.heap.resolve (.list items)).isWritable then .ok (elementOf items place) m
      else .error .wrongValue m := by
  obtain ⟨w, hw, hopened⟩ := Option.map_eq_some_iff.mp hlist
  unfold callNamed callValue
  rw [Eval.bind_of_ok (fetch_of_some hw),
    Eval.bind_of_ok (rfl : opened w m = .ok (m.heap.opened w) m), hopened]
  split_ifs with hwritable
  · exact Eval.bind_of_ok (ensureWritable_of_isWritable hwritable) _
  · exact Eval.bind_of_error
      (ensureWritable_of_not_isWritable (Bool.eq_false_of_not_eq_true hwritable)) _

theorem callNamed_text {evaluate : Evaluator} (htext : m.contents? name = some (.text s)) :
    callNamed evaluate name (.int place :: rest) m = .ok (codeAt s (.int place)) m := by
  obtain ⟨w, hw, hopened⟩ := Option.map_eq_some_iff.mp htext
  unfold callNamed callValue
  rw [Eval.bind_of_ok (fetch_of_some hw),
    Eval.bind_of_ok (rfl : opened w m = .ok (m.heap.opened w) m), hopened]
  rfl

theorem evaluate_call_list (own : Arguments)
    (hargs : evalArguments (evaluate rounds depth) params m = .ok (.int place :: rest) m₁)
    (hshown : (m₁.heap.resolve (.list (.int place :: rest))).isWritable = true)
    (hlist : m₁.contents? name = some (.list items))
    (hwritable : (m₁.heap.resolve (.list items)).isWritable = true) :
    evaluate rounds (depth + 1) (.node (.call name params)) own m =
      .ok (elementOf items place) (afterPrelude name (.int place :: rest) m₁) :=
  evaluate_call_of_contents own hargs hshown fun _ hname hheap ↦
    (callNamed_list (hname.trans hlist)).trans (if_pos (hheap ▸ hwritable))

theorem evaluate_call_text (own : Arguments)
    (hargs : evalArguments (evaluate rounds depth) params m = .ok (.int place :: rest) m₁)
    (hshown : (m₁.heap.resolve (.list (.int place :: rest))).isWritable = true)
    (htext : m₁.contents? name = some (.text s)) :
    evaluate rounds (depth + 1) (.node (.call name params)) own m =
      .ok (codeAt s (.int place)) (afterPrelude name (.int place :: rest) m₁) :=
  evaluate_call_of_contents own hargs hshown fun _ hname _ ↦ callNamed_text (hname.trans htext)

/-- A list in which a number cannot be written is not read, nor is one at places that cannot be. -/
theorem evaluate_call_list_fails (own : Arguments)
    (hargs : evalArguments (evaluate rounds depth) params m = .ok (.int place :: rest) m₁)
    (hlist : m₁.contents? name = some (.list items))
    (hlong : ¬ ((m₁.heap.resolve (.list (.int place :: rest))).isWritable = true ∧
      (m₁.heap.resolve (.list items)).isWritable = true)) :
    ∃ m₂, evaluate rounds (depth + 1) (.node (.call name params)) own m =
      .error .wrongValue m₂ := by
  change ∃ m₂, evalCall (evaluate rounds depth) name params m = _
  rw [evalCall_eq]
  by_cases hshown : (m₁.heap.resolve (.list (.int place :: rest))).isWritable = true
  · have hitems : ¬ ((afterPrelude name (.int place :: rest) m₁).heap.resolve
        (.list items)).isWritable = true := by
      rw [heap_afterPrelude]
      exact fun hwritable ↦ hlong ⟨hshown, hwritable⟩
    have hnamed : callNamed (evaluate rounds depth) name (.int place :: rest)
        (afterPrelude name (.int place :: rest) m₁) =
          .error .wrongValue (afterPrelude name (.int place :: rest) m₁) :=
      (callNamed_list ((contents?_afterPrelude name _ m₁ name).trans hlist)).trans (if_neg hitems)
    rw [Eval.bind_of_ok (callPrelude_of_ok hargs hshown)]
    exact ⟨_, Eval.handle_of_error hnamed _ _⟩
  · have hcall : callArguments (evaluate rounds depth) params m = .error .wrongValue m₁ := by
      unfold callArguments
      rw [Eval.bind_of_ok hargs, Eval.bind_of_error
        (ensureWritable_of_not_isWritable (Bool.eq_false_of_not_eq_true hshown))]
    exact ⟨m₁, Eval.bind_of_error (Eval.bind_of_error hcall _) _⟩

/-- The value of a call is read item by item, whatever the list. -/
theorem evaluate_element {array index w : Value} {m₂ : Machine} (own : Arguments)
    (harray : evalOperand (evaluate rounds depth) array m = .ok w m₁)
    (hindex : evalOperand (evaluate rounds depth) index m₁ = .ok (.int place) m₂)
    (hlist : m₂.heap.opened w = .list items) (hplace : place < items.length) :
    evaluate rounds (depth + 1) (.node (.element array index)) own m = .ok items[place] m₂ := by
  change evalElement (evaluate rounds depth) array index m = _
  unfold evalElement
  rw [Eval.bind_of_ok harray, Eval.bind_of_ok hindex,
    Eval.bind_of_ok (rfl : opened w m₂ = .ok (m₂.heap.opened w) m₂), hlist]
  change (if (place : Int) < 0 then pure .empty else pure (items.getD place .empty) : Eval Value)
    m₂ = _
  rw [if_neg (Int.not_lt.mpr (Int.natCast_nonneg place)), List.getD_eq_getElem?_getD,
    List.getElem?_eq_getElem hplace]
  rfl

end

/-- A call whose name stands for a list, with a place in the list as its first argument, returns
exactly if the list and the arguments can be written; otherwise one of their numbers has the wrong
value for that. It gives the item at the place, except if the
list is one text of several characters; then it gives the first of them. A list that is the value of
a call gives the item at the place in any case, so that the two ways to read agree but for such
lists. -/
theorem call_reads_item_iff (rounds depth : Nat) (own : Arguments) {name : String} {params : Value}
    {place : Nat} {rest items : List Value} {m m₁ : Machine}
    (hargs : evalArguments (evaluate rounds depth) params m = .ok (.int place :: rest) m₁)
    (hlist : m₁.contents? name = some (.list items)) (hplace : place < items.length) :
    ((∃ v m₂, evaluate rounds (depth + 1) (.node (.call name params)) own m = .ok v m₂) ↔
      (m₁.heap.resolve (.list (.int place :: rest))).isWritable = true ∧
        (m₁.heap.resolve (.list items)).isWritable = true) ∧
    (∀ f m₂, evaluate rounds (depth + 1) (.node (.call name params)) own m = .error f m₂ →
      f = .wrongValue) ∧
    (∀ v m₂, evaluate rounds (depth + 1) (.node (.call name params)) own m = .ok v m₂ →
      (v = items[place] ↔ ¬ ∃ s, items = [.text s] ∧ 1 < s.length) ∧
      (∀ s, items = [.text s] → v = .ofChars (s.toList.take 1)) ∧
      m₂.contents? name = some (.list items)) ∧
    ∀ (array index w : Value) (m₃ m₄ m₅ : Machine),
      evalOperand (evaluate rounds depth) array m₃ = .ok w m₄ →
      evalOperand (evaluate rounds depth) index m₄ = .ok (.int place) m₅ →
      m₅.heap.opened w = .list items →
      evaluate rounds (depth + 1) (.node (.element array index)) own m₃ = .ok items[place] m₅ := by
  have helement (array index w : Value) (m₃ m₄ m₅ : Machine)
      (harray : evalOperand (evaluate rounds depth) array m₃ = .ok w m₄)
      (hindex : evalOperand (evaluate rounds depth) index m₄ = .ok (.int place) m₅)
      (hopened : m₅.heap.opened w = .list items) :
      evaluate rounds (depth + 1) (.node (.element array index)) own m₃ = .ok items[place] m₅ :=
    evaluate_element own harray hindex hopened hplace
  by_cases hwritable : (m₁.heap.resolve (.list (.int place :: rest))).isWritable = true ∧
      (m₁.heap.resolve (.list items)).isWritable = true
  · have hcall := evaluate_call_list own hargs hwritable.1 hlist hwritable.2
    rw [hcall]
    refine ⟨iff_of_true ⟨_, _, rfl⟩ hwritable, fun _ _ h ↦ (nomatch h), fun v m₂ hv ↦ ?_, helement⟩
    injection hv with hv hm₂
    subst hv hm₂
    refine ⟨elementOf_eq_iff hplace, ?_, by rw [contents?_afterPrelude, hlist]⟩
    rintro s rfl
    obtain rfl : place = 0 := Nat.lt_one_iff.mp hplace
    exact elementOf_single s
  · obtain ⟨m₂, hcall⟩ := evaluate_call_list_fails own hargs hlist hwritable
    rw [hcall]
    exact ⟨iff_of_false (fun ⟨_, _, h⟩ ↦ nomatch h) hwritable,
      fun _ _ h ↦ (EStateM.Result.error.inj h).1.symm, fun _ _ h ↦ (nomatch h), helement⟩

/-- A machine with one variable, which is called `a`. -/
def holdingValue (h : Heap) (v : Value) : Machine :=
  { heap := h, frame := { locals := ⟨[("a", v)]⟩ } }

theorem contents?_holdingValue (h : Heap) (v : Value) :
    (holdingValue h v).contents? "a" = some (h.opened v) := by
  have hlower : Text.lower "a" = "a" := Text.lower_eq_of_isAscii (by decide) (by decide)
  have hfound : (holdingValue h v).lookup "a" = some v := by
    rw [lookup_eq, hlower]
    rfl
  have hresolved : (holdingValue h v).resolve? "a" = some v := by
    change ((holdingValue h v).lookup ("" ++ "a")).or _ = _
    rw [String.empty_append, hfound, Option.some_or]
  rw [Machine.contents?, hresolved]
  rfl

theorem evalArguments_place {evaluate : Evaluator} {place : Nat}
    (hplace : Decimal.isWritable place = true) (m : Machine) :
    evalArguments evaluate (.tokens (.ofList [.int place])) m = .ok [.int place] m :=
  (Eval.bind_of_ok (walk_ofList [.int place] m) _).trans
    (evalOperands_of_gives (.cons (gives_int hplace) .nil))

theorem isWritable_resolve_place (h : Heap) {place : Nat}
    (hplace : Decimal.isWritable place = true) :
    (h.resolve (.list [.int place])).isWritable = true :=
  isWritable_resolve_list h (List.all_eq_true.mpr fun _ hv ↦ List.mem_singleton.mp hv ▸ hplace)

theorem call_reads_item_iff_second :
    ∃ m₂, evaluate 1 1 (.node (.call "a" (.tokens (.ofList [.int (1 : Nat)])))) none
      (holdingValue ⟨#[[.text "ab", .text "cd"]]⟩ (.array 0)) = .ok (.text "cd") m₂ := by
  obtain ⟨hreturns, -, hitem, -⟩ := call_reads_item_iff 1 0 none
    (evalArguments_place isWritable_one (holdingValue ⟨#[[.text "ab", .text "cd"]]⟩ (.array 0)))
    (contents?_holdingValue _ _) (Nat.lt_succ_self 1)
  obtain ⟨v, m₂, hcall⟩ := hreturns.mpr
    ⟨isWritable_resolve_place _ isWritable_one, isWritable_resolve_list _ rfl⟩
  have hmany : ¬ ∃ s, [Value.text "ab", .text "cd"] = [.text s] ∧ 1 < s.length := by simp
  have hsecond : v = .text "cd" := (hitem v m₂ hcall).1.mpr hmany
  rw [hsecond] at hcall
  exact ⟨m₂, hcall⟩

/-- A list of one text is read as the text, so that the call gives a character and not the item. -/
theorem single_text_read_in_part : ¬ ∀ (rounds depth place : Nat) (name : String) (params : Value)
    (items : List Value) (m : Machine),
    evalArguments (evaluate rounds depth) params m = .ok [.int place] m →
    m.contents? name = some (.list items) → ∀ hplace : place < items.length,
    ∃ m', evaluate rounds (depth + 1) (.node (.call name params)) none m = .ok items[place] m' := by
  intro h
  have hzero : Decimal.isWritable (0 : Nat) = true := isWritable_code (Char.ofNat 0)
  have hargs : evalArguments (evaluate 1 0) (.tokens (.ofList [.int (0 : Nat)]))
      (holdingValue ⟨#[[.text "ab"]]⟩ (.array 0)) = .ok [.int (0 : Nat)] _ :=
    evalArguments_place hzero _
  obtain ⟨m', hcall⟩ := h 1 0 0 "a" _ _ _ hargs (contents?_holdingValue _ _) Nat.one_pos
  rw [evaluate_call_list none hargs (isWritable_resolve_place _ hzero) (contents?_holdingValue _ _)
    (isWritable_resolve_list _ rfl)] at hcall
  have hitem : elementOf [.text "ab"] (0 : Nat) = .text "ab" := by
    injection hcall
  exact (elementOf_eq_iff Nat.one_pos).mp hitem ⟨"ab", rfl, by decide⟩

end Semantics

end VbaTrace
