import VbaTrace.Proofs.CharacterLoops
import VbaTrace.Proofs.Evaluation

/-!
Texts as lists of bytes. A variable of the type for lists of bytes takes a text as the numbers of
its characters with a zero behind each, and a variable of the type for texts takes such a list as the
text of every second number (`textOfPairs?_bytePairs`). So a text that is assigned to the one variable
and from there to the other comes back as it was, whatever its characters are.

Which type a variable has is known to the frame (`Machine.TracksBytes`). An assignment does not change
that (`TracksBytes.assign`), nor does the evaluation of an expression (`tracksBytes_of_operand`).
-/

set_option autoImplicit false

namespace VbaTrace

/-! The encoding -/

namespace Semantics

theorem mapM_asInt?_pairs (cs : List Char) :
    (cs.flatMap fun c ↦ [Value.int c.toNat, .int 0]).mapM Value.asInt? =
      some (cs.flatMap fun c ↦ [(c.toNat : Int), 0]) := by
  induction cs with
  | nil => rfl
  | cons c cs ih =>
    rw [List.flatMap_cons, List.flatMap_cons, List.cons_append, List.cons_append, List.nil_append,
      List.mapM_cons, List.mapM_cons, ih]
    rfl

theorem everySecond_pairs {α β : Type} (f : α → β) (filler : β) (xs : List α) :
    everySecond (xs.flatMap fun x ↦ [f x, filler]) = xs.map f := by
  induction xs with
  | nil => rfl
  | cons x xs ih =>
    rw [List.map_cons, ← ih]
    rfl

theorem mapM_charOf?_codes (cs : List Char) :
    (cs.map fun c ↦ (c.toNat : Int)).mapM Value.charOf? = some cs := by
  induction cs with
  | nil => rfl
  | cons c cs ih =>
    rw [List.map_cons, List.mapM_cons, charOf?_toNat, ih]
    rfl

theorem textOfPairs?_bytePairs (s : String) : textOfPairs? (bytePairs s) = some s := by
  unfold textOfPairs? bytePairs
  rw [mapM_asInt?_pairs]
  dsimp only [bind, Option.bind]
  rw [everySecond_pairs, mapM_charOf?_codes]
  dsimp only
  rw [String.ofList_toList]
  rfl

theorem convertFor_byteArray (s : String) :
    convertFor (.text "Byte Array") (.text s) (.text s) = .list (bytePairs s) :=
  rfl

theorem convertFor_string (value : Value) (s : String) :
    convertFor (.text "String") value (.list (bytePairs s)) = .text s := by
  change ((listAsText (bytePairs s)).map Value.text).getD value = _
  rw [listAsText, textOfPairs?_bytePairs]
  rfl

/-- The numbers of the characters, between which the conversion to Unicode puts null characters. -/
theorem map_code_convertText (s : String) :
    (Library.convertText 64 s).toList.map (fun c ↦ Value.int c.toNat) = bytePairs s := by
  change (String.ofList (s.toList.flatMap fun c ↦ [c, Char.ofNat 0])).toList.map _ = _
  rw [String.toList_ofList, List.map_flatMap]
  rfl

theorem mem_bytePairs {s : String} {v : Value} (hv : v ∈ bytePairs s) :
    ∃ n : Int, v = .int n ∧ Decimal.isWritable n = true := by
  obtain ⟨c, -, hc⟩ := List.mem_flatMap.mp hv
  rcases List.mem_pair.mp hc with rfl | rfl
  · exact ⟨c.toNat, rfl, isWritable_code c⟩
  · exact ⟨0, rfl, isWritable_code (Char.ofNat 0)⟩

theorem isWritableScalar_bytePairs (s : String) : (bytePairs s).all isWritableScalar = true := by
  rw [List.all_eq_true]
  intro v hv
  obtain ⟨n, rfl, hn⟩ := mem_bytePairs hv
  exact hn

end Semantics

theorem Routine.call_strConv (evaluate : Evaluator) (m : Machine) (s : String) :
    Routine.call evaluate .strConv (some [.text s, .int 64]) m =
      .ok (.text (Library.convertText 64 s)) m := by
  rw [call_of_answer evaluate m (r := .strConv) rfl]
  rfl

/-! The store -/

namespace Machine

theorem assign_types (m : Machine) (name : String) (v : Value) :
    (m.assign name v none).frame.types = m.frame.types := by
  obtain ⟨key, h | ⟨longer, h⟩⟩ := m.assign_cases name v none <;> rw [h] <;> simp

/-- Two variables outside of `With` blocks, of which the one is known to hold a list of bytes and the
other a text, so that their names differ in more than case. -/
structure TracksBytes (m : Machine) (bytes text : String) : Prop where
  outside : m.frame.withName = ""
  bytesType : m.frame.types.find? (Text.lower bytes) = some (.text "Byte Array")
  textType : m.frame.types.find? (Text.lower text) = some (.text "String")

variable {m m' : Machine} {bytes text : String}

theorem TracksBytes.of_frame (h : m.TracksBytes bytes text)
    (hblock : m'.frame.withName = m.frame.withName) (htypes : m'.frame.types = m.frame.types) :
    m'.TracksBytes bytes text :=
  ⟨hblock.trans h.outside, htypes ▸ h.bytesType, htypes ▸ h.textType⟩

theorem TracksBytes.assign (h : m.TracksBytes bytes text) (name : String) (v : Value) :
    (m.assign name v none).TracksBytes bytes text :=
  h.of_frame (m.assign_withName name v none) (m.assign_types name v)

end Machine

namespace Semantics

open Machine

variable {m m₁ : Machine} {bytes text s : String} {e : Value}

/-- A variable holds the bytes of a text. -/
structure HoldsBytes (m : Machine) (bytes s : String) (cell : Nat) : Prop where
  found : m.lookup bytes = some (.array cell)
  items : m.heap.read cell = bytePairs s

/-- A text that is assigned to the variable for bytes is encoded. -/
theorem evalAssign_bytes {evaluate : Evaluator} (h : m₁.TracksBytes bytes text)
    (hvalue : evalOperand evaluate e m = .ok (.text s) m₁) :
    ∃ cell m₂, evalAssign evaluate (.text bytes) .null e m = .ok .null m₂ ∧
      HoldsBytes m₂ bytes s cell ∧ m₂.TracksBytes bytes text := by
  have hnew : convertFor ((m₁.frame.types.find? (Text.lower bytes)).getD .null) (.text s)
      (m₁.heap.opened (.text s)) = .list (bytePairs s) := by
    rw [h.bytesType]
    exact convertFor_byteArray s
  have hboxed : ∀ v ∈ bytePairs s, v.isBoxed = true := by
    intro v hv
    obtain ⟨n, rfl, -⟩ := mem_bytePairs hv
    rfl
  have hassign := evalAssign_of_ok hvalue rfl hnew
  rw [Heap.box_of_isBoxed hboxed] at hassign
  have htracks : ({ m₁ with heap := (m₁.heap.alloc (bytePairs s)).2 } : Machine).TracksBytes bytes
      text := h.of_frame rfl rfl
  refine ⟨m₁.heap.cells.size, _, hassign, ⟨CopyLoop.lookup_assign_self _ _ _, ?_⟩,
    htracks.assign _ _⟩
  rw [Machine.assign_eq]
  exact (Heap.read_alloc m₁.heap (bytePairs s) _).trans (if_pos rfl)

/-- The bytes of a text that are assigned to the variable for texts are decoded. -/
theorem evalAssign_text (rounds depth : Nat) {cell : Nat} (h : m.TracksBytes bytes text)
    (hbytes : HoldsBytes m bytes s cell) :
    ∃ m₁, evalAssign (evaluate rounds (depth + 1)) (.text text) .null
        (.node (.simpleName bytes)) m = .ok .null m₁ ∧
      fetch (.text text) m₁ = .ok (.text s) m₁ := by
  have hwritable : (m.heap.resolve (.array cell)).isWritable = true := by
    refine isWritable_resolve_array m.heap ?_
    rw [hbytes.items]
    exact isWritableScalar_bytePairs s
  have hgives : Gives (evaluate rounds (depth + 1)) m (.node (.simpleName bytes)) (.array cell) :=
    gives_name h.outside hbytes.found hwritable rfl
  have hnew : convertFor ((m.frame.types.find? (Text.lower text)).getD .null) (.array cell)
      (m.heap.opened (.array cell)) = .text s := by
    rw [h.textType, Heap.opened, hbytes.items]
    exact convertFor_string (.array cell) s
  have hbox : Heap.box (.text s) m.heap = (.text s, m.heap) := rfl
  refine ⟨m.assign text (.text s) none, ?_, fetch_of_outside (h.assign _ _).outside
    (CopyLoop.lookup_assign_self _ _ _)⟩
  rw [evalAssign_of_ok hgives hwritable hnew, hbox]

/-- Where no variable holds a statement, an expression leaves the types of variables alone. -/
theorem tracksBytes_of_operand {rounds depth : Nat} {v : Value} (h : m.TracksBytes bytes text)
    (he : e.fits .operand = true) (hm : m.Admitted True)
    (hvalue : evalOperand (evaluate rounds depth) e m = .ok v m₁) : m₁.TracksBytes bytes text := by
  have hensures := ensures_evalOperand (evaluates True rounds depth) fun _ ↦ he
  have hkeeps := (hensures.changes_final hm).keepsFrame
  rw [Eval.final_of_ok hvalue] at hkeeps
  exact h.of_frame hkeeps.withName hkeeps.types

/-- A text that is assigned to a variable for bytes makes it the list of the numbers of its characters
with a zero behind each, as the conversion to Unicode writes them, and when this list is assigned to a
variable for texts, that holds the text again. An expression keeps the types of the variables unless
it runs a statement that some variable holds; of anything else that gives the text, it is asked that
the types are still known when it is assigned. -/
theorem text_survives_bytes (rounds depth : Nat) (args : Arguments)
    (htracks : m.TracksBytes bytes text)
    (hvalue : evalOperand (evaluate rounds (depth + 1)) e m = .ok (.text s) m₁)
    (hkept : e.fits .operand = true ∧ m.Admitted True ∨ m₁.TracksBytes bytes text) :
    ∃ (padded : String) (w : Value) (m₂ m₃ : Machine),
      Routine.call (evaluate rounds (depth + 1)) .strConv (some [.text s, .int 64]) m =
          .ok (.text padded) m ∧
        padded.toList.map (fun c ↦ Value.int c.toNat) =
          s.toList.flatMap (fun c ↦ [.int c.toNat, .int 0]) ∧
        evaluate rounds (depth + 2) (.node (.assign (.text bytes) .null e)) args m = .ok .null m₂ ∧
        fetch (.text bytes) m₂ = .ok w m₂ ∧
        m₂.heap.opened w = .list (padded.toList.map fun c ↦ Value.int c.toNat) ∧
        evaluate rounds (depth + 2)
          (.node (.assign (.text text) .null (.node (.simpleName bytes)))) args m₂ = .ok .null m₃ ∧
        fetch (.text text) m₃ = .ok (.text s) m₃ := by
  have htracks₁ : m₁.TracksBytes bytes text := by
    rcases hkept with ⟨he, hm⟩ | hkept
    · exact tracksBytes_of_operand htracks he hm hvalue
    · exact hkept
  obtain ⟨cell, m₂, hencode, hbytes, htracks₂⟩ := evalAssign_bytes htracks₁ hvalue
  obtain ⟨m₃, hdecode, htext⟩ := evalAssign_text rounds depth htracks₂ hbytes
  have hcodes := map_code_convertText s
  refine ⟨Library.convertText 64 s, .array cell, m₂, m₃, Routine.call_strConv _ m s, hcodes,
    hencode, fetch_of_outside htracks₂.outside hbytes.found, ?_, hdecode, htext⟩
  rw [hcodes, Heap.opened, hbytes.items]

/-- A machine that knows the types of two variables, where the first is a global variable and the
second has the name of a function. -/
def awaitingBytes : Machine :=
  { globals := { others := ⟨
      [("data", .int 0),
        ("out", .node (.function (.text "Out") .null (.list []) .empty .null))]⟩ }
    frame := { types := ⟨[("data", .text "Byte Array"), ("out", .text "String")]⟩ } }

theorem awaitingBytes_admitted : awaitingBytes.Admitted True :=
  .of_tables (.of_entries (by decide)) (.of_entries (by decide)) (.of_entries (by decide))
    Heap.stocked_empty rfl rfl

theorem awaitingBytes_tracks : awaitingBytes.TracksBytes "Data" "Out" := by
  have hbytes : Text.lower "Data" = "data" := Text.lower_eq_of_isAscii (by decide) (by decide)
  have htext : Text.lower "Out" = "out" := Text.lower_eq_of_isAscii (by decide) (by decide)
  refine ⟨rfl, ?_, ?_⟩
  · rw [hbytes]
    rfl
  · rw [htext]
    rfl

theorem text_survives_bytes_euro :
    awaitingBytes.TracksBytes "Data" "Out" ∧ awaitingBytes.Admitted True ∧
      ∃ (w : Value) (m₂ m₃ : Machine),
        evaluate 1 2 (.node (.assign (.text "Data") .null (.node (.strReverse (.text "€A"))))) none
            awaitingBytes = .ok .null m₂ ∧
          fetch (.text "Data") m₂ = .ok w m₂ ∧
          m₂.heap.opened w = .list [.int 65, .int 0, .int 8364, .int 0] ∧
          evaluate 1 2 (.node (.assign (.text "Out") .null (.node (.simpleName "Data")))) none m₂ =
            .ok .null m₃ ∧
          fetch (.text "Out") m₃ = .ok (.text "A€") m₃ := by
  have hreversed : Gives (evaluate 1 0) awaitingBytes (.text "€A") (.ofChars ['€', 'A']) :=
    gives_undotted (by decide)
  have hvalue : evalOperand (evaluate 1 1) (.node (.strReverse (.text "€A"))) awaitingBytes =
      .ok (.text "A€") awaitingBytes :=
    evalOperand_node_iff.mpr ⟨rfl, evalStrReverse_of_text hreversed⟩
  obtain ⟨padded, w, m₂, m₃, -, hcodes, hencode, hfetch, hitems, hdecode, htext⟩ :=
    text_survives_bytes 1 0 none awaitingBytes_tracks hvalue
      (.inl ⟨by decide, awaitingBytes_admitted⟩)
  exact ⟨awaitingBytes_tracks, awaitingBytes_admitted, w, m₂, m₃, hencode, hfetch,
    hitems.trans (congrArg Value.list hcodes), hdecode, htext⟩

end Semantics

end VbaTrace
