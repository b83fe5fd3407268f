import VbaTrace.Proofs.Effects

/-!
What the operators and the built-in routines give, and what the routines do to the machine. From
operands they give operands: numbers and texts that they compute, an argument, or a list of
arguments. Their only changes are recorded actions, the file tables and kept files, except that one
of them runs a procedure.
-/

set_option autoImplicit false

namespace VbaTrace

/-- A value that is given is of a kind. -/
def Gives (P : Value → Prop) (x : Except Fault Value) : Prop :=
  ∀ v, x = .ok v → P v

namespace Gives

variable {P : Value → Prop} {α : Type}

theorem ok {v : Value} (hv : P v) : Gives P (.ok v) :=
  fun _ h ↦ Except.ok.inj h ▸ hv

theorem error (f : Fault) : Gives P (.error f) :=
  fun _ h ↦ nomatch h

theorem bind {x : Except Fault α} {f : α → Except Fault Value}
    (hf : ∀ a, x = .ok a → Gives P (f a)) : Gives P (x >>= f) := by
  cases x with
  | ok a => exact hf a rfl
  | error e => exact error e

theorem map {x : Except Fault α} {f : α → Value}
    (hf : ∀ a, x = .ok a → P (f a)) :
    Gives P (x.map f) := by
  cases x with
  | ok a => exact ok (hf a rfl)
  | error e => exact error e

end Gives

/-! Operators -/

namespace Value

variable {P : Value → Prop} {v w : Value}

theorem gives_onNumbers {ints : Int → Int → Except Fault Value}
    {floats : Float → Float → Except Fault Value} (hints : ∀ m n, Gives P (ints m n))
    (hfloats : ∀ x y, Gives P (floats x y)) : Gives P (onNumbers ints floats v w) := by
  unfold onNumbers
  split
  · exact hfloats _ _
  · split
    · exact .bind fun _ _ ↦ hfloats _ _
    · exact .error _
  · split
    · exact .bind fun _ _ ↦ hfloats _ _
    · exact .error _
  · split
    · exact hints _ _
    · exact .error _

variable [ValueKind P]

theorem gives_repeatList (n : Int) {vs : List Value} (hvs : ∀ v ∈ vs, P v) :
    Gives P (repeatList n vs) := by
  refine .map fun ws hws ↦ (ValueKind.list_iff ws).mpr ?_
  unfold repeated at hws
  split_ifs at hws
  · rw [← Except.ok.inj hws]
    exact fun _ h ↦ nomatch h
  · rw [← Except.ok.inj hws]
    intro v hv
    obtain ⟨us, hus, hvus⟩ := List.mem_flatten.mp hv
    rw [List.eq_of_mem_replicate hus] at hvus
    exact hvs v hvus

theorem gives_repeatText (n : Int) (s : String) : Gives P (repeatText n s) := by
  unfold repeatText
  split_ifs
  · exact .error _
  · exact .map fun _ _ ↦ ValueKind.text _

theorem gives_add (hv : P v) (hw : P w) : Gives P (v.add w) := by
  unfold add
  split
  · exact .ok (ValueKind.text _)
  · exact .ok ((ValueKind.list_iff _).mpr (List.forall_mem_append.mpr
      ⟨(ValueKind.list_iff _).mp hv, (ValueKind.list_iff _).mp hw⟩))
  · exact gives_onNumbers (fun _ _ ↦ .ok (ValueKind.int _)) fun _ _ ↦ .ok (ValueKind.float _)

theorem gives_multiply (hv : P v) (hw : P w) : Gives P (v.multiply w) := by
  unfold multiply
  split
  · exact gives_repeatText _ _
  · exact gives_repeatList _ ((ValueKind.list_iff _).mp hv)
  · exact gives_repeatText _ _
  · exact gives_repeatList _ ((ValueKind.list_iff _).mp hw)
  · exact gives_onNumbers (fun _ _ ↦ .ok (ValueKind.int _)) fun _ _ ↦ .ok (ValueKind.float _)

theorem gives_subtract : Gives P (v.subtract w) :=
  gives_onNumbers (fun _ _ ↦ .ok (ValueKind.int _)) fun _ _ ↦ .ok (ValueKind.float _)

theorem gives_divide : Gives P (v.divide w) := by
  refine gives_onNumbers (fun m n ↦ ?_) fun x y ↦ ?_
  · split_ifs
    · exact .error _
    · split
      · exact .ok (ValueKind.float _)
      · exact .error _
  · split_ifs
    · exact .error _
    · exact .ok (ValueKind.float _)

theorem gives_floorDivide : Gives P (v.floorDivide w) := by
  refine gives_onNumbers (fun m n ↦ ?_) fun x y ↦ ?_ <;> split_ifs
  · exact .error _
  · exact .ok (ValueKind.int _)
  · exact .error _
  · exact .ok (ValueKind.float _)

theorem gives_modulo : Gives P (v.modulo w) := by
  unfold modulo
  split
  · exact .map fun _ _ ↦ ValueKind.text _
  · refine gives_onNumbers (fun m n ↦ ?_) fun x y ↦ ?_ <;> split_ifs
    · exact .error _
    · exact .ok (ValueKind.int _)
    · exact .error _
    · exact .ok (ValueKind.float _)

theorem gives_bitwise (ints : Int → Int → Int) (bools : Bool → Bool → Bool) :
    Gives P (bitwise ints bools v w) := by
  unfold bitwise
  split
  · exact .ok (ValueKind.bool _)
  · split
    · exact .ok (ValueKind.int _)
    · exact .error _

theorem gives_bitEqv : Gives P (v.bitEqv w) :=
  .bind fun _ _ ↦ .bind fun _ _ ↦ .bind fun _ _ ↦ gives_bitwise _ _

end Value

theorem Operator.gives_apply {P : Value → Prop} [ValueKind P] (op : Operator) {v w : Value}
    (hv : P v) (hw : P w) : Gives P (op.apply v w) := by
  cases op with
  | multiply => exact Value.gives_multiply hv hw
  | add => exact Value.gives_add hv hw
  | divide => exact Value.gives_divide
  | floorDivide => exact Value.gives_floorDivide
  | modulo => exact Value.gives_modulo
  | subtract => exact Value.gives_subtract
  | concatenate => exact .bind fun _ _ ↦ .bind fun _ _ ↦ .ok (ValueKind.text _)
  | xor | and | or => exact Value.gives_bitwise _ _
  | eqv => exact Value.gives_bitEqv

theorem Operator.gives_applyToInts {P : Value → Prop} [ValueKind P] (op : Operator) (v w : Value) :
    Gives P (op.applyToInts v w) :=
  .bind fun m _ ↦ .bind fun n _ ↦ op.gives_apply (ValueKind.int m) (ValueKind.int n)

/-- Combining operands step by step gives an operand when each step does. -/
theorem Operator.gives_fold {P : Value → Prop} {combine : Value → Value → Except Fault Value}
    (hc : ∀ {v w}, P v → P w → Gives P (combine v w)) {vs : List Value} (hvs : ∀ v ∈ vs, P v) :
    Gives P (Operator.fold combine vs) := by
  have hfold : ∀ (ws : List Value) (v : Value), (∀ w ∈ ws, P w) → P v →
      Gives P (ws.foldlM combine v) := by
    intro ws
    induction ws with
    | nil => exact fun v _ hv ↦ .ok hv
    | cons w ws ih =>
      intro v hws hv
      obtain ⟨hw, hws⟩ := List.forall_mem_cons.mp hws
      rw [List.foldlM_cons]
      exact .bind fun u hu ↦ ih u hws (hc hv hw u hu)
  cases vs with
  | nil => exact .error _
  | cons v vs =>
    obtain ⟨hv, hvs⟩ := List.forall_mem_cons.mp hvs
    exact hfold vs v hvs hv

/-! Routines without effects -/

namespace Library

variable {P : Value → Prop} {h : Heap} {args : List Value}

theorem gives_argument (hargs : ∀ v ∈ args, P v) (place : Nat) :
    Gives P (argument args place) := by
  unfold argument
  split
  · next hv => exact .ok (hargs _ (List.mem_of_getElem? hv))
  · exact .error _

theorem gives_recorded {v : Value} (hv : P v) :
    Gives P (recorded h v) := by
  unfold recorded
  split_ifs
  · exact .ok hv
  · exact .error _

theorem gives_choose (hargs : ∀ v ∈ args, P v) :
    Gives P (choose h args) := by
  refine .bind fun _ _ ↦ .bind fun v _ ↦ ?_
  split
  · exact gives_argument hargs 1
  · exact gives_argument hargs 2

variable [ValueKind P]

theorem of_orEmpty {x : Answer} (hx : Gives P x) : P (orEmpty x) := by
  cases x with
  | ok v => exact hx v rfl
  | error f => exact ValueKind.text _

theorem of_nullAsEmpty {v : Value} (hv : P v) :
    P (nullAsEmpty v) := by
  unfold nullAsEmpty
  split_ifs
  · exact ValueKind.text _
  · exact hv

theorem gives_lenient {f : Value → Answer} (hf : ∀ v, Gives P (f v)) :
    Gives P (lenient f h args) :=
  .bind fun _ _ ↦ .bind fun _ _ ↦ gives_recorded (of_orEmpty (hf _))

theorem gives_int : Gives P (int h args) := by
  refine .bind fun _ _ ↦ .bind fun v _ ↦ ?_
  split
  · exact gives_recorded (ValueKind.int _)
  · exact .bind fun _ _ ↦ .ok (ValueKind.text _)

theorem gives_oct : Gives P (oct h args) := by
  refine .bind fun _ _ ↦ .bind fun v _ ↦ ?_
  split
  · exact .ok (ValueKind.text _)
  · exact .bind fun _ _ ↦ .ok (ValueKind.text _)

theorem gives_hex (v : Value) : Gives P (hex v) :=
  .bind fun _ _ ↦ .ok (ValueKind.text _)

theorem gives_sgn (v : Value) : Gives P (sgn v) :=
  .bind fun _ _ ↦ .bind fun _ _ ↦ .ok (ValueKind.int _)

theorem gives_sqr (v : Value) : Gives P (sqr v) := by
  refine .bind fun _ _ ↦ .bind fun x _ ↦ ?_
  split_ifs
  · exact .error _
  · exact .ok (ValueKind.float _)

theorem gives_abs (v : Value) : Gives P (abs v) :=
  .bind fun _ _ ↦ .ok (ValueKind.int _)

theorem gives_rounded (round : Float → Option Int) (v : Value) :
    Gives P (rounded round v) := by
  refine .bind fun x _ ↦ ?_
  split
  · exact .ok (ValueKind.int _)
  · exact .error _

theorem gives_bounded (f : Float → Float) (v : Value) : Gives P (bounded f v) := by
  refine .bind fun x _ ↦ ?_
  split_ifs
  · exact .error _
  · exact .ok (ValueKind.float _)

theorem gives_atn (v : Value) : Gives P (atn v) :=
  .bind fun _ _ ↦ .ok (ValueKind.float _)

theorem gives_exp (v : Value) : Gives P (exp v) := by
  refine .bind fun x _ ↦ ?_
  dsimp only
  split_ifs
  · exact .error _
  · exact .ok (ValueKind.float _)

theorem gives_log : Gives P (log h args) := by
  refine .bind fun _ _ ↦ .bind fun v _ ↦ ?_
  split
  · split_ifs
    · exact .ok (ValueKind.text _)
    · exact .ok (ValueKind.float _)
  · exact .ok (ValueKind.text _)
  · exact .error _

theorem gives_unmarked (s : String) : Gives P (unmarked s) := by
  unfold unmarked
  dsimp only
  split_ifs
  · split
    · exact .ok (ValueKind.int _)
    · exact .error _
  · exact .ok (ValueKind.text _)

theorem gives_cByte (v : Value) : Gives P (cByte v) := by
  unfold cByte
  split
  · refine .bind fun _ _ ↦ .bind fun x _ ↦ ?_
    split
    · exact .ok (ValueKind.int _)
    · exact .error _
  · exact .error _

theorem gives_single (v : Value) : Gives P (single v) := by
  unfold single
  split
  · exact .bind fun _ _ ↦ .bind fun _ _ ↦ .ok (ValueKind.float _)
  · exact .error _

theorem gives_cSng : Gives P (cSng h args) := by
  refine .bind fun r hr ↦ .bind fun _ _ ↦ .bind fun _ _ ↦ ?_
  exact .ok (gives_lenient gives_single r hr)

theorem gives_cLng (v : Value) : Gives P (cLng v) := by
  unfold cLng
  split
  · next s =>
    refine .bind fun w hw ↦ ?_
    split
    · split
      · exact .ok (ValueKind.int _)
      · exact .bind fun _ _ ↦ .ok (ValueKind.int _)
    · exact .ok (gives_unmarked s w hw)
  · exact .bind fun _ _ ↦ .ok (ValueKind.int _)

theorem gives_cBool : Gives P (cBool args) :=
  .bind fun _ _ ↦ .bind fun _ _ ↦ .ok (ValueKind.int _)

theorem gives_cDate : Gives P (cDate args) :=
  .bind fun _ _ ↦ .ok (ValueKind.int _)

theorem gives_string (hh : h.Stocked P) (hargs : ∀ v ∈ args, P v) :
    Gives P (string h args) := by
  refine .bind fun _ _ ↦ .bind fun _ _ ↦ .bind fun char hchar ↦ ?_
  refine gives_recorded (of_orEmpty (.bind fun n _ ↦ ?_))
  exact Value.gives_multiply (hh.opened (gives_argument hargs 1 char hchar)) (ValueKind.int n)

theorem gives_rgb : Gives P (rgb h args) := by
  refine .bind fun _ _ ↦ .bind fun _ _ ↦ .bind fun _ _ ↦ .bind fun _ _ ↦ ?_
  refine gives_recorded (of_orEmpty ?_)
  exact .bind fun _ _ ↦ .bind fun _ _ ↦ .bind fun _ _ ↦ .ok (ValueKind.int _)

theorem gives_val : Gives P (val args) := by
  refine .bind fun _ _ ↦ .bind fun v _ ↦ ?_
  split
  · dsimp only
    split
    · exact .bind fun _ _ ↦ .ok (ValueKind.float _)
    · split
      · exact .bind fun _ _ ↦ .ok (ValueKind.float _)
      · exact .ok (ValueKind.int _)
  · exact .ok (ValueKind.text _)

theorem gives_payment (rate periods present negatedFuture due : Float) :
    Gives P (payment rate periods present negatedFuture due) := by
  unfold payment
  split
  · exact .error _
  · dsimp only
    split_ifs
    · exact .ok (ValueKind.float _)
    · exact .ok (ValueKind.int _)

theorem gives_pmt : Gives P (pmt h args) := by
  refine .bind fun _ _ ↦ .ok (of_orEmpty ?_)
  refine .bind fun _ _ ↦ .bind fun _ _ ↦ .bind fun _ _ ↦ .bind fun _ _ ↦ ?_
  refine .bind fun _ _ ↦ .bind fun _ _ ↦ .bind fun _ _ ↦ ?_
  dsimp only
  split <;> refine .bind fun _ _ ↦ ?_ <;> split <;> exact .bind fun _ _ ↦ gives_payment _ _ _ _ _

theorem gives_mid : Gives P (mid h args) := by
  refine .bind fun _ _ ↦ .bind fun v _ ↦ ?_
  split
  · exact .ok ValueKind.null
  · exact .bind fun _ _ ↦ .bind fun _ _ ↦ .ok (ValueKind.text _)

theorem gives_sidePart (part : List Char → Int → List Char) :
    Gives P (sidePart part h args) := by
  refine .bind fun _ _ ↦ .bind fun v _ ↦ ?_
  split_ifs
  · exact .ok ValueKind.null
  · exact .bind fun _ _ ↦ .bind fun _ _ ↦ .ok (ValueKind.text _)

theorem gives_length : Gives P (length h args) := by
  refine .bind fun v _ ↦ ?_
  split
  · exact .ok (ValueKind.int _)
  · exact .error _

theorem gives_trimmed (trim : List Char → List Char) : Gives P (trimmed trim h args) := by
  refine .bind fun _ _ ↦ .bind fun v _ ↦ ?_
  split_ifs
  · exact .bind fun _ _ ↦ .ok (ValueKind.text _)
  · split
    · exact .ok (ValueKind.text _)
    · exact .error _

theorem gives_firstCode (hargs : ∀ v ∈ args, P v) :
    Gives P (firstCode h args) := by
  refine .bind fun _ _ ↦ .bind fun v hv ↦ ?_
  split_ifs
  · exact gives_recorded (gives_argument hargs 0 v hv)
  · refine .bind fun s _ ↦ ?_
    split
    · exact .ok (ValueKind.int _)
    · exact .error _

theorem gives_strConv (hargs : ∀ v ∈ args, P v) :
    Gives P (strConv h args) := by
  refine .bind fun _ _ ↦ ?_
  split <;> refine .bind fun _ _ ↦ .bind fun v hv ↦ ?_
  all_goals
    split
    · exact .ok (ValueKind.text _)
    · split
      · exact .ok (ValueKind.text _)
      · exact .ok (ValueKind.text _)
    · exact gives_recorded (gives_argument hargs 0 v hv)

theorem gives_split : Gives P (split h args) := by
  refine .bind fun _ _ ↦ ?_
  dsimp only
  refine .bind fun v _ ↦ ?_
  split
  · split
    · split_ifs
      · exact .error _
      · exact .ok ((ValueKind.list_iff _).mpr (List.forall_mem_map.mpr fun _ _ ↦ ValueKind.text _))
    · exact .ok ((ValueKind.list_iff _).mpr (List.forall_mem_map.mpr fun _ _ ↦ ValueKind.text _))
    · exact .error _
  · exact .error _

theorem gives_strReverse (hh : h.Stocked P) (hargs : ∀ v ∈ args, P v) :
    Gives P (strReverse h args) := by
  refine .bind fun _ _ ↦ .bind fun v hv ↦ ?_
  have hopened := hh.opened (of_nullAsEmpty (gives_argument hargs 0 v hv))
  split
  · exact .ok (ValueKind.text _)
  · next heq =>
    rw [heq] at hopened
    exact gives_recorded ((ValueKind.list_iff _).mpr fun w hw ↦
      (ValueKind.list_iff _).mp hopened w (List.mem_reverse.mp hw))
  · next heq =>
    rw [heq] at hopened
    exact gives_recorded ((ValueKind.list_iff _).mpr fun w hw ↦
      ValueKind.items hopened w (List.mem_reverse.mp hw))
  · exact .error _

theorem gives_replace : Gives P (replace h args) := by
  refine .bind fun _ _ ↦ .bind fun _ _ ↦ .bind fun _ _ ↦ .bind fun v _ ↦ ?_
  split
  · split
    · exact .ok (ValueKind.text _)
    · exact .error _
  · exact .error _

theorem gives_search (last : Bool) : Gives P (search last h args) := by
  refine .bind fun _ _ ↦ ?_
  split
  dsimp only
  split
  · exact .error _
  · exact .ok (ValueKind.int _)
  · split
    · exact .error _
    · exact gives_recorded (ValueKind.int _)
    · split
      · exact .ok (ValueKind.int _)
      · split
        · split
          · exact .ok (ValueKind.int _)
          · split
            · exact .ok (ValueKind.int _)
            · exact .error _
        · exact .error _
        · split
          · exact .ok (ValueKind.int _)
          · split
            · exact .error _
            · split
              · exact .ok (ValueKind.int _)
              · exact .error _
        · exact .ok (ValueKind.int _)

theorem gives_changeCase (change : String → String) : Gives P (changeCase change h args) :=
  .bind fun _ _ ↦ .bind fun _ _ ↦ .ok (ValueKind.text _)

theorem gives_environ : Gives P (environ h args) :=
  .bind fun _ _ ↦ .bind fun _ _ ↦ .ok (ValueKind.text _)

theorem gives_base64Decode : Gives P (base64Decode h args) := by
  refine .bind fun _ _ ↦ .bind fun v _ ↦ ?_
  split
  · exact .bind fun _ _ ↦ .ok (ValueKind.text _)
  · exact .error _

theorem gives_day : Gives P (day h args) := by
  refine .bind fun _ _ ↦ .bind fun _ _ ↦ .bind fun s _ ↦ ?_
  split
  · split
    · exact .ok (ValueKind.int _)
    · exact .ok (ValueKind.text _)
  · exact .ok (ValueKind.text _)

theorem gives_asText : Gives P (asText h args) :=
  .bind fun _ _ ↦ .bind fun _ _ ↦ .bind fun _ _ ↦ .ok (ValueKind.text _)

theorem gives_array (hargs : ∀ v ∈ args, P v) : Gives P (array h args) :=
  gives_recorded ((ValueKind.list_iff args).mpr hargs)

theorem gives_upperBound : Gives P (upperBound h args) := by
  refine .bind fun _ _ ↦ .bind fun v _ ↦ ?_
  split
  · exact .ok (ValueKind.int _)
  · exact .error _

theorem gives_lowerBound : Gives P (lowerBound args) :=
  .bind fun _ _ ↦ .ok (ValueKind.int _)

theorem gives_dir : Gives P (dir args) :=
  .bind fun _ _ ↦ .ok (ValueKind.text _)

theorem gives_answer (hh : h.Stocked P) (hargs : ∀ v ∈ args, P v)
    (r : Routine) : ∀ answer ∈ answer? r h args, Gives P answer := by
  have known {x : Answer} (hx : Gives P x) : ∀ answer ∈ some x, Gives P answer :=
    fun _ h ↦ Option.some.inj h ▸ hx
  cases r with
  | len | lenB => exact known gives_length
  | mid => exact known gives_mid
  | left | right => exact known (gives_sidePart _)
  | array => exact known (gives_array hargs)
  | uBound => exact known gives_upperBound
  | lBound => exact known gives_lowerBound
  | trim | rTrim | lTrim => exact known (gives_trimmed _)
  | ascW | ascB => exact known (gives_firstCode hargs)
  | strConv => exact known (gives_strConv hargs)
  | split => exact known gives_split
  | int | cInt => exact known gives_int
  | oct => exact known gives_oct
  | strReverse => exact known (gives_strReverse hh hargs)
  | replace => exact known gives_replace
  | inStr | inStrRev => exact known (gives_search _)
  | sgn => exact known (gives_lenient gives_sgn)
  | sqr => exact known (gives_lenient gives_sqr)
  | abs => exact known (gives_lenient gives_abs)
  | fix | round => exact known (gives_lenient (gives_rounded _))
  | hex => exact known (gives_lenient gives_hex)
  | cByte => exact known (gives_lenient gives_cByte)
  | cLng => exact known (gives_lenient gives_cLng)
  | cBool => exact known gives_cBool
  | cDate => exact known gives_cDate
  | cStr | str => exact known gives_asText
  | cSng => exact known gives_cSng
  | atn => exact known (gives_lenient gives_atn)
  | tan | cos | sin => exact known (gives_lenient (gives_bounded _))
  | exp => exact known (gives_lenient gives_exp)
  | log => exact known gives_log
  | string => exact known (gives_string hh hargs)
  | dir => exact known gives_dir
  | rgb => exact known gives_rgb
  | val => exact known gives_val
  | base64Decode | base64DecodeString => exact known gives_base64Decode
  | pmt => exact known gives_pmt
  | day => exact known gives_day
  | uCase | lCase => exact known (gives_changeCase _)
  | environ => exact known gives_environ
  | iIf => exact known (gives_choose hargs)
  | msgBox | shell | builtInDocumentProperties | item | randomize | rnd | close | put | run | curDir
  | createObject => exact fun _ h ↦ nomatch h

/-! Routines with effects -/

variable {strict : Prop} {role : Role}

theorem ensures_startFile (key : String) (name : Value) :
    Ensures strict role (startFile key name) fun _ ↦ True :=
  .modifyFiles fun fr ↦ ⟨_, fr.closedFiles, rfl⟩

theorem ensures_appendToFile (number data : Value) :
    Ensures strict role (appendToFile number data) fun _ ↦ True := by
  refine (Ensures.read_opened data).bind fun w _ ↦ ?_
  dsimp only
  split
  · exact .pure True.intro
  · refine Ensures.get.bind fun m _ ↦ (Ensures.ofExcept fun _ _ ↦ True.intro).bind fun found _ ↦ ?_
    exact .modifyFiles fun fr ↦ ⟨_, fr.closedFiles, rfl⟩

theorem ensures_put : Ensures strict role (put args) (Admits strict .operand) := by
  refine (Ensures.ofExcept fun _ _ ↦ True.intro).bind fun _ _ ↦ ?_
  exact (ensures_appendToFile _ _).bind fun _ _ ↦ .pure admits_null

theorem ensures_keepDropped (name : String) (bytes : List UInt8) :
    Ensures strict role (keepDropped name bytes) fun _ ↦ True := by
  refine .modify fun m _ ↦ ?_
  split
  · exact .drop role m _
  · exact .refl role m

theorem ensures_close : Ensures strict role (close args) (Admits strict .operand) := by
  unfold close
  split
  · next number =>
    refine (Ensures.read_opened number).bind fun v _ ↦ ?_
    split
    · split
      · exact .pure admits_null
      · refine Ensures.get.bind fun m _ ↦ ?_
        refine (Ensures.ofExcept fun _ _ ↦ True.intro).bind fun found _ ↦ ?_
        obtain ⟨key, f⟩ := found
        dsimp only
        split
        · exact .throw_bind _ _
        · refine Ensures.bind (.modifyFiles fun fr ↦ ⟨_, _, rfl⟩) fun _ _ ↦ ?_
          refine (Ensures.ofExcept fun _ _ ↦ True.intro).bind fun bytes _ ↦ ?_
          split
          · refine (Ensures.report (by decide) _ _).bind fun _ _ ↦ ?_
            exact (ensures_keepDropped _ _).bind fun _ _ ↦ .pure admits_null
          · exact .throw _
    · exact .throw _
  · exact .pure admits_null

section

variable (l : EvalLogic P)

theorem holds_msgBox : l.Holds (msgBox args) P := by
  refine l.bind (l.ofExcept fun _ _ ↦ True.intro) fun v _ ↦ ?_
  exact l.bind (l.report (by decide) _ _) fun _ _ ↦ l.pure (ValueKind.int 1)

theorem holds_shell : l.Holds (shell args) P := by
  refine l.bind (l.ofExcept fun _ _ ↦ True.intro) fun command _ ↦ ?_
  refine l.bind (l.ensureWritable command) fun _ _ ↦ ?_
  exact l.bind (l.report (by decide) _ _) fun _ _ ↦ l.pure (ValueKind.int 0)

theorem holds_documentProperty : l.Holds (documentProperty args) P := by
  refine l.bind (l.ofExcept fun _ _ ↦ True.intro) fun _ _ ↦ ?_
  refine l.bind (l.read_opened _) fun property _ ↦ ?_
  refine l.get (fun m hm ↦ ?_) fun _ _ h ↦ by simp only [h.properties]
  split
  · exact l.pure (ValueKind.text _)
  · next properties hproperties =>
    split
    · split
      · next v hv =>
        exact l.bind (l.ensureWritable v) fun _ _ ↦
          l.pure (hm.properties properties hproperties _ v hv)
      · exact l.pure (ValueKind.text _)
    · exact l.throw _

end

end Library

/-- The arguments of a call, if there are any, may stand as operands. -/
def AdmitsArguments (strict : Prop) (args : Arguments) : Prop :=
  ∀ vs, args = some vs → ∀ v ∈ vs, Admits strict .operand v

theorem admitsArguments_none {strict : Prop} : AdmitsArguments strict none :=
  fun _ h ↦ nomatch h

theorem admitsArguments_some {strict : Prop} {vs : List Value}
    (h : ∀ v ∈ vs, Admits strict .operand v) : AdmitsArguments strict (some vs) :=
  fun _ heq ↦ Option.some.inj heq ▸ h

/-- An evaluator that respects roles: what is admitted in a role makes only the changes that the
role allows, and gives operands. -/
def Evaluates (strict : Prop) (evaluate : Evaluator) : Prop :=
  ∀ (role : Role) (v : Value) (args : Arguments), Admits strict role v →
    AdmitsArguments strict args →
      Ensures strict role (evaluate v args) (Admits strict .operand)

section

variable {strict : Prop} {role : Role} {evaluate : Evaluator} {args : List Value}

theorem Library.ensures_run (he : Evaluates strict evaluate)
    (hargs : ∀ v ∈ args, Admits strict .operand v) :
    Ensures strict .operand (Library.run evaluate args) (Admits strict .operand) := by
  refine (Ensures.ofExcept fun _ _ ↦ True.intro).bind fun _ _ ↦ ?_
  dsimp only
  refine .handle ?_ fun f ↦ ?_
  · refine (Ensures.fetch _).bind fun v hv ↦ he .operand v _ hv ?_
    split
    · exact admitsArguments_some fun w hw ↦ hargs w (List.mem_of_mem_tail hw)
    · exact admitsArguments_none
  · split
    · exact .pure admits_null
    · exact .throw _

/-- Of the routines only these change more than the recorded actions. -/
def Routine.changing : List Routine := [.close, .put, .run]

theorem Routine.holds_call {P : Value → Prop} [ValueKind P] (l : EvalLogic P) (r : Routine)
    {arguments : Arguments} (hargs : ∀ vs, arguments = some vs → ∀ v ∈ vs, P v)
    (hchanging : r ∈ changing → ∀ vs, arguments = some vs → l.Holds (r.call evaluate (some vs)) P) :
    l.Holds (r.call evaluate arguments) P := by
  unfold Routine.call
  split
  · exact l.pure (ValueKind.text _)
  · exact l.pure (ValueKind.float _)
  · exact l.pure (ValueKind.text _)
  · exact l.pure ValueKind.null
  · split
    · exact l.throw _
    · next args =>
      split
      · exact Library.holds_msgBox l
      · exact Library.holds_shell l
      · exact Library.holds_documentProperty l
      · exact Library.holds_documentProperty l
      · exact hchanging (by simp [changing]) args rfl
      · exact hchanging (by simp [changing]) args rfl
      · exact hchanging (by simp [changing]) args rfl
      · refine l.get (fun m hm ↦ ?_) fun _ _ h ↦ by simp only [h.heap]
        split
        · next answer hanswer =>
          exact l.ofExcept (Library.gives_answer hm.heap (hargs args rfl) _ answer hanswer)
        · exact l.pure ValueKind.null

theorem Routine.ensures_call (he : Evaluates strict evaluate) (r : Routine) {arguments : Arguments}
    (hargs : AdmitsArguments strict arguments) :
    Ensures strict .operand (r.call evaluate arguments) (Admits strict .operand) := by
  refine r.holds_call (Ensures.logic strict .operand) hargs fun hr vs hvs ↦ ?_
  simp only [changing, List.mem_cons, List.not_mem_nil, or_false] at hr
  rcases hr with rfl | rfl | rfl
  · exact Library.ensures_close
  · exact Library.ensures_put
  · exact Library.ensures_run he (hargs vs hvs)

end

end VbaTrace
