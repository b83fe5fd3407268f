import VbaTrace.Grammar.Build

/-!
Matching a pattern at a cursor. The meaning of a rule is a parameter (`call`), so that `Pattern.run`
is a plain recursion over the pattern. A match is tried either for its tokens, in which case the
builders run, or only to look ahead.
-/

set_option autoImplicit false

namespace VbaTrace.Grammar

inductive Outcome
  | matched (next : Cursor) (tokens : Tokens)
  | failed
  | faulty (f : Fault)
  /-- Rules were nested deeper than the bound on depth. -/
  | exhausted

/-- Whether builders run, and whether blanks count. -/
structure Mode where
  builds : Bool
  tight : Bool
deriving DecidableEq, Repr

namespace Mode

def normal : Mode := ⟨true, false⟩

def look (m : Mode) : Mode := { m with builds := false }

def tighten (m : Mode) : Mode := { m with tight := true }

end Mode

/-- Past the blanks before an element. -/
def passBlanks (lead : Lead) (mode : Mode) (c : Cursor) : Cursor :=
  if lead.skips && !mode.tight then c.skipWhile lead.blanks.holds else c

/-- Past the blanks before an element that passes over them itself. -/
def enter (p : Pattern) (skip : Bool) (mode : Mode) (c : Cursor) : Cursor :=
  if skip && p.lead.own then passBlanks p.lead mode c else c

mutual

/-- The texts of tokens that are joined, those of nested lists included. -/
def joinedText : List Value → String
  | [] => ""
  | v :: vs => joinedItem v ++ joinedText vs

def joinedItem : Value → String
  | .tokens (.mk items _) => joinedText items
  | v => v.display

end

/-- Names the tokens, or the first of them; an empty text is not named. -/
def labelled (name : String) (extent : Extent) (t : Tokens) : Tokens :=
  match extent with
  | .whole => .mk t.items (Tokens.addLabel name [.tokens (.ofList t.items)] t.labels)
  | .first =>
    match t.items with
    | [] => .mk [] (Tokens.addLabel name [.tokens .empty] t.labels)
    | .text "" :: _ => t
    | v :: _ => .mk t.items (Tokens.addLabel name [v] t.labels)

namespace Outcome

/-- Changes the tokens of a match. -/
def mapTokens (f : Tokens → Tokens) : Outcome → Outcome
  | matched c t => matched c (f t)
  | o => o

/-- Runs a builder on the tokens of a match. -/
def built (b : Builder) : Outcome → Outcome
  | matched c t =>
    match b.apply t with
    | .values vs => matched c (.ofList vs)
    | .refused => failed
    | .faulty f => faulty f
  | o => o

def ofLexeme : Option (Cursor × Option String) → Outcome
  | none => failed
  | some (c, none) => matched c .empty
  | some (c, some s) => matched c (.one (.text s))

end Outcome

section

variable {m : Type → Type} [Monad m]

/-- Adds matches of `step` to what was matched so far until it fails. Every match has to advance. -/
@[specialize] def repeated (step : Cursor → m Outcome) : Nat → Cursor → Tokens → m Outcome
  | 0, c, t => pure (.matched c t)
  | n + 1, c, t => do
    match ← step c with
    | .matched d u => repeated step n d (t.append u)
    | .failed => pure (.matched c t)
    | o => pure o

/-- The first position from `c` on at which `stop` matches, and the text before it. -/
@[specialize] def searched (stop : Cursor → m Outcome) (start : Cursor) :
    Nat → Cursor → m Outcome
  | 0, _ => pure .failed
  | n + 1, c => do
    match ← stop c with
    | .matched _ _ => pure (.matched c (.one (.text (start.textTo c))))
    | .failed => if c.atEnd then pure .failed else searched stop start n c.step
    | o => pure o

/-- Of two matches, found by looking ahead, the longer one is run for its tokens, and the other one
when the first turns out to match less. -/
@[specialize] def preferred (longer shorter : m Outcome) (longerEnd shorterEnd : Nat) :
    m Outcome := do
  match ← longer with
  | .matched c t =>
    if longerEnd ≤ c.offset || shorterEnd ≤ c.offset then pure (.matched c t)
    else match ← shorter with
      | .matched d u => pure (if c.offset < d.offset then .matched d u else .matched c t)
      | .failed => pure (.matched c t)
      | o => pure o
  | .failed => shorter
  | o => pure o

/-- Matches a pattern at a cursor. `skip` tells whether blanks may be passed over first. -/
@[specialize] def Pattern.run (call : Rule → Mode → Cursor → m Outcome) :
    Pattern → Bool → Mode → Cursor → m Outcome
  | .lexeme l, skip, mode, c =>
    pure (.ofLexeme (l.scan (enter (.lexeme l) skip mode c)))
  | .rule r, skip, mode, c => call r mode (enter (.rule r) skip mode c)
  | .seq a b, skip, mode, c => do
    let c := if skip then passBlanks a.lead mode c else c
    match ← a.run call false mode c with
    | .matched d t =>
      match ← b.run call true mode d with
      | .matched e u => pure (.matched e (t.append u))
      | o => pure o
    | o => pure o
  | .first a b, _, mode, c => do
    match ← a.run call true mode c with
    | .failed => b.run call true mode c
    | o => pure o
  | .longest a b, _, mode, c => do
    let x ← a.run call true mode.look c
    let y ← b.run call true mode.look c
    match x, y with
    | .matched d _, .matched e _ =>
      if mode.builds then
        if d.offset < e.offset then
          preferred (b.run call true mode c) (a.run call true mode c) e.offset d.offset
        else preferred (a.run call true mode c) (b.run call true mode c) d.offset e.offset
      else pure (if d.offset < e.offset then y else x)
    | .matched _ _, .failed => if mode.builds then a.run call true mode c else pure x
    | .failed, .matched _ _ => if mode.builds then b.run call true mode c else pure y
    | .failed, o => pure o
    | o, .failed => pure o
    | .matched _ _, o => pure o
    | o, _ => pure o
  | .optional p, skip, mode, c => do
    let c := enter p skip mode c
    match ← p.run call false mode c with
    | .failed => pure (.matched c .empty)
    | o => pure o
  | .orBlank p, skip, mode, c => do
    let c := enter p skip mode c
    match ← p.run call false mode c with
    | .failed => pure (.matched c (.one Value.empty))
    | o => pure o
  | .many p, skip, mode, c => do
    let c := enter p skip mode c
    match ← p.run call false mode c with
    | .matched d t => repeated (p.run call true mode) d.rest.length d t
    | .failed => pure (.matched c .empty)
    | o => pure o
  | .atLeastOne p, skip, mode, c => do
    let c := enter p skip mode c
    match ← p.run call false mode c with
    | .matched d t => repeated (p.run call true mode) d.rest.length d t
    | o => pure o
  | .absent p, _, mode, c => do
    match ← p.run call true mode.look c with
    | .matched _ _ => pure .failed
    | .failed => pure (.matched c .empty)
    | o => pure o
  | .ahead p, skip, mode, c => do
    let c := enter p skip mode c
    match ← p.run call true mode c with
    | .matched _ _ => pure (.matched c .empty)
    | o => pure o
  | .upTo p, skip, mode, c => do
    let c := enter p skip mode c
    searched (p.run call false mode.look) c (c.rest.length + 1) c
  | .group p, skip, mode, c => do
    return (← p.run call skip mode c).mapTokens fun t ↦ .one (.tokens t)
  | .drop p, skip, mode, c => do
    return (← p.run call skip mode c).mapTokens fun _ ↦ .empty
  | .joined p, skip, mode, c => do
    let c := if skip then passBlanks { p.lead with skips := true } mode c else c
    return (← p.run call false mode.tighten c).mapTokens fun t ↦
      .one (.text (joinedText t.items))
  | .joinedLoosely p, skip, mode, c => do
    let c := if skip then passBlanks { p.lead with skips := true } mode c else c
    return (← p.run call false mode c).mapTokens fun t ↦ .one (.text (joinedText t.items))
  | .tight p, _, mode, c => p.run call false mode.tighten c
  | .label name extent p, skip, mode, c => do
    return (← p.run call skip mode c).mapTokens (labelled name extent)
  | .build b p, skip, mode, c => do
    let o ← p.run call skip mode c
    return if mode.builds then o.built b else o
  | .chain operand op right b, _, mode, c => do
    match ← operand.run call true mode c with
    | .matched d t =>
      let tail := fun e ↦ do
        match ← op.run call true mode e with
        | .matched e₁ u =>
          match ← right.run call true mode e₁ with
          | .matched e₂ v => pure (.matched e₂ (u.append v))
          | o => pure o
        | o => pure o
      match ← repeated tail d.rest.length d t with
      | .matched e u =>
        if e.offset == d.offset then pure (.matched d t)
        else
          let o := Outcome.matched e (.one (.tokens u))
          match b with
          | some b => pure (if mode.builds then o.built b else o)
          | none => pure o
      | o => pure o
    | o => pure o

end

/-- Once its first part has matched, a sequence ends as its second part does. -/
theorem Pattern.run_seq_of_matched {call : Rule → Mode → Cursor → Id Outcome} {a b : Pattern}
    {skip : Bool} {mode : Mode} {c d : Cursor} {t : Tokens}
    (h : a.run call false mode (if skip then passBlanks a.lead mode c else c) = .matched d t) :
    (seq a b).run call skip mode c = (b.run call true mode d).mapTokens t.append := by
  rw [Pattern.run, h]
  dsimp only [bind, pure]
  cases (b.run call true mode d : Id Outcome) <;> rfl

end VbaTrace.Grammar
