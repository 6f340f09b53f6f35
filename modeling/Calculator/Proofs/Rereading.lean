import Calculator.Proofs.Course
import Calculator.Proofs.Token.Seams

/-!
# Reading the text of an expression

The text of an expression brackets its operations and leaves its signs bare. Read again, a sign before the base of
a power stands before the whole power: that is the one place where the text means something else.
`Expr.regroup` says which expression the text means, and the grammar derives it (`Expr.derives_printed`). It is the
expression itself exactly when no power has a signed base (`Expr.reread_eq_iff`). Main statement: `text_rereads`.
-/

namespace Calculator

namespace Expr

/-- The numbers in an expression, from left to right. -/
def numbers : Expr → List Binary64
  | number v => [v]
  | binary _ a b => a.numbers ++ b.numbers
  | signed _ x => x.numbers

/-- Some power in the expression has a signed expression for its base. -/
inductive RaisesSign : Expr → Prop where
  | here {s x b} :
    RaisesSign (.binary .pow (.signed s x) b)
  | left {op a b} :
    RaisesSign a →
    RaisesSign (.binary op a b)
  | right {op a b} :
    RaisesSign b →
    RaisesSign (.binary op a b)
  | signed {s x} :
    RaisesSign x →
    RaisesSign (.signed s x)

/-- The tokens that write an expression as its text does. -/
def printed : Expr → List Token
  | number v => [.number v]
  | binary op a b => .lparen :: (a.printed ++ .op op :: b.printed) ++ [.rparen]
  | signed s x => s.written :: x.printed

/-- The expression that the text of an expression means when what follows it closes its unsigned part: signs are
put before that. -/
def regroup (close : Expr → Expr) : Expr → Expr
  | number v => close (.number v)
  | binary op a b =>
    close (if op = .pow then a.regroup fun base => .binary .pow base (b.regroup id)
      else .binary op (a.regroup id) (b.regroup id))
  | signed s x => .signed s (x.regroup close)

/-- The expression that the text of an expression means. -/
def reread (e : Expr) : Expr :=
  e.regroup id

/-! ## What the text means -/

/-- A primary is a signed expression without a sign. -/
lemma derives_unsigned (ts : List Token) (base : Expr) (d : Derives .primary ts base) :
    Derives .signed (ts ++ []) (id base) := by
  rw [List.append_nil]
  exact .unsigned (.base d)

/-- The grammar derives what the text means, whatever closes the unsigned part of it. -/
lemma derives_printed (e : Expr) {rest : List Token} {close : Expr → Expr}
    (closes : ∀ ts base, Derives .primary ts base → Derives .signed (ts ++ rest) (close base)) :
    Derives .signed (e.printed ++ rest) (e.regroup close) := by
  -- the base of a power is closed by the exponent, so the induction is for every way to close
  induction e generalizing rest close with
  | number v => exact closes _ _ .number
  | signed s x ih => exact .sign (ih closes)
  | binary op a b left right =>
    have exponent := right derives_unsigned
    rw [List.append_nil] at exponent
    refine closes _ _ (.group ?_)
    by_cases power : op = .pow
    · subst power
      rw [if_pos rfl]
      exact (left fun ts base d => .unsigned (.raise d exponent)).toSum
    · rw [if_neg power]
      have operand := left derives_unsigned
      rw [List.append_nil] at operand
      exact .binary_of_signed power operand exponent

/-- The tokens that print an expression derive the expression that its text means. -/
lemma derives_reread (e : Expr) : Derives .sum e.printed e.reread := by
  have d : Derives .signed (e.printed ++ []) e.reread := e.derives_printed derives_unsigned
  rw [List.append_nil] at d
  exact d.toSum

/-- A sign raises none itself. -/
lemma raisesSign_signed_iff {s : Sign} {x : Expr} : (signed s x).RaisesSign ↔ x.RaisesSign := by
  constructor
  · rintro ⟨⟩
    assumption
  · exact .signed

/-- An operation raises a sign when it is a power with a signed base or an operand raises one. -/
lemma raisesSign_binary_iff {op : BinaryOp} {a b : Expr} : (binary op a b).RaisesSign ↔
    (op = .pow ∧ ∃ s x, a = .signed s x) ∨ a.RaisesSign ∨ b.RaisesSign := by
  constructor
  · intro raises
    cases raises with
    | here => exact .inl ⟨rfl, _, _, rfl⟩
    | left raises => exact .inr (.inl raises)
    | right raises => exact .inr (.inr raises)
  · rintro (⟨rfl, s, x, rfl⟩ | raises | raises)
    · exact .here
    · exact .left raises
    · exact .right raises

/-- Without a sign in front, what closes an expression is put around it. -/
lemma regroup_of_unsigned {e : Expr} (unsigned : ¬ ∃ s x, e = .signed s x) (close : Expr → Expr) :
    e.regroup close = close e.reread := by
  cases e with
  | number v => rfl
  | binary op a b => rfl
  | signed s x => exact absurd ⟨s, x, rfl⟩ unsigned

/-- An operation that raises no sign itself is meant as it is, with its operands as they are meant. -/
lemma reread_binary {op : BinaryOp} {a b : Expr} (apart : ¬ (op = .pow ∧ ∃ s x, a = .signed s x)) :
    (binary op a b).reread = .binary op a.reread b.reread := by
  rw [reread, regroup]
  by_cases power : op = .pow
  · have unsigned : ¬ ∃ s x, a = .signed s x := fun signed => apart ⟨power, signed⟩
    rw [if_pos power, regroup_of_unsigned unsigned, power]
    rfl
  · rw [if_neg power]
    rfl

/-- The text of an expression means the expression exactly when no power in it has a signed base. -/
lemma reread_eq_iff (e : Expr) : e.reread = e ↔ ¬ e.RaisesSign := by
  induction e with
  | number v => exact iff_of_true rfl nofun
  | signed s x ih =>
    have inside : (signed s x).reread = signed s x.reread := rfl
    rw [raisesSign_signed_iff, ← ih, inside]
    simp
  | binary op a b left right =>
    rw [raisesSign_binary_iff, not_or, not_or, ← left, ← right]
    by_cases raised : op = .pow ∧ ∃ s x, a = .signed s x
    · obtain ⟨rfl, s, x, rfl⟩ := raised
      refine iff_of_false nofun ?_
      rintro ⟨apart, -⟩
      exact apart ⟨rfl, s, x, rfl⟩
    · rw [reread_binary raised]
      simp [raised]

/-! ## Reading the text -/

/-- The numbers of the expression are finite and carry no minus. -/
def HasPlainNumbers (e : Expr) : Prop :=
  ∀ v ∈ e.numbers, v.isFinite = true ∧ v.sign = .plus

/-- The text of an expression with plain numbers has the tokens that print it. -/
lemma tokenize_text {e : Expr} (plain : e.HasPlainNumbers) : tokenize e.text = .ok e.printed := by
  induction e with
  | number v =>
    obtain ⟨isFinite, isPositive⟩ := plain v List.mem_cons_self
    cases v with
    | nan => cases isFinite
    | infinite s => cases isFinite
    | finite s m =>
      cases isPositive
      exact tokenize_number m
  | signed s x ih =>
    rw [text, tokenize_sign, ih plain]
    rfl
  | binary op a b left right =>
    have textA := left fun v mem => plain v (List.mem_append_left _ mem)
    have textB := right fun v mem => plain v (List.mem_append_right _ mem)
    have space : isBlank ' ' = true := by decide
    have operator : tokenize (op.symbol ++ ' ' :: b.text) = .ok (.op op :: b.printed) := by
      rw [tokenize_operator op (by simp) (by simp), tokenize_of_isBlank space, textB]
      rfl
    have inside : tokenize (a.text ++ ' ' :: (op.symbol ++ ' ' :: b.text)) =
        .ok (a.printed ++ .op op :: b.printed) := by
      rw [tokenize_append_of_breaks (.of_isBlank space), textA, tokenize_of_isBlank space, operator]
      rfl
    have split : (binary op a b).text = '(' :: (a.text ++ ' ' :: (op.symbol ++ ' ' :: b.text)) ++ [')'] := by
      simp [text]
    rw [split, printed]
    exact tokenize_group inside tokenize_nil

/-- The tokens of the text open fewer brackets at once than the expression is deep. -/
lemma nestingFrom_printed_append (e : Expr) (opened : Nat) (rest : List Token) :
    nestingFrom opened (e.printed ++ rest) ≤ max (opened + e.depth) (nestingFrom opened rest) := by
  induction e generalizing opened rest with
  | number v => exact Nat.le_max_right _ _
  | signed s x ih =>
    have inside := ih opened rest
    have same : nestingFrom opened ((signed s x).printed ++ rest) = nestingFrom opened (x.printed ++ rest) := by
      cases s <;> rfl
    simp only [depth]
    omega
  | binary op a b left right =>
    have inLeft := left (opened + 1) (.op op :: (b.printed ++ .rparen :: rest))
    have inRight := right (opened + 1) (.rparen :: rest)
    have after := le_nestingFrom opened rest
    simp only [printed, depth, List.cons_append, List.append_assoc, List.nil_append, nestingFrom,
      Nat.add_sub_cancel] at inLeft inRight ⊢
    omega

/-- Reading the text goes through up to the last stage. This builds the expression exactly when no power in it has a
signed base, and otherwise another expression, unless it finds that too deep. -/
def RereadsAs (e : Expr) (limit : Nat) (text : Text) : Prop :=
  ∃ ts output, tokenize text = .ok ts ∧ toPostorder limit ts = .ok output ∧
    (ofPostorder limit output = .ok e ↔ ¬ e.RaisesSign) ∧
    (e.RaisesSign → ofPostorder limit output = .error (.tooDeep limit) ∨
      ∃ other, other ≠ e ∧ ofPostorder limit output = .ok other)

/-- The text of an expression with plain numbers, within the bound, is reread. -/
lemma rereadsAs_text {e : Expr} (plain : e.HasPlainNumbers) {limit : Nat} (fits : e.depth ≤ limit) :
    e.RereadsAs limit e.text := by
  have nests : nesting e.printed ≤ limit := by
    have bound := e.nestingFrom_printed_append 0 []
    simp only [List.append_nil, nestingFrom] at bound
    exact Nat.le_trans bound (by omega)
  refine ⟨e.printed, e.reread.postorder, tokenize_text plain, e.derives_reread.toPostorder nests, ?_, ?_⟩
  · rw [ofPostorder_postorder]
    by_cases shallow : e.reread.depth ≤ limit
    · rw [if_pos shallow, Except.ok.injEq, reread_eq_iff]
    · rw [if_neg shallow, ← reread_eq_iff]
      refine iff_of_false (by simp) ?_
      intro same
      rw [same] at shallow
      exact shallow fits
  · intro raises
    have differs : e.reread ≠ e := fun same => e.reread_eq_iff.mp same raises
    rw [ofPostorder_postorder]
    by_cases shallow : e.reread.depth ≤ limit
    · rw [if_pos shallow]
      exact .inr ⟨e.reread, differs, rfl⟩
    · rw [if_neg shallow]
      exact .inl rfl

end Expr

/-- A number of an expression is in its listing. -/
lemma Expr.number_mem_postorder {e : Expr} {v : Binary64} (mem : v ∈ e.numbers) : .number v ∈ e.postorder := by
  induction e with
  | number w =>
    rw [List.mem_singleton.mp mem]
    exact List.mem_singleton_self _
  | signed s x ih => exact List.mem_append_left _ (ih mem)
  | binary op a b left right =>
    rcases List.mem_append.mp mem with mem | mem
    · exact mem_postorder_of_left (left mem)
    · exact mem_postorder_of_right (right mem)

/-- A number of an expression is among its tokens. -/
lemma Derives.mem_of_mem_numbers {L : Level} {ts : List Token} {e : Expr} (d : Derives L ts e) {v : Binary64}
    (mem : v ∈ e.numbers) : .number v ∈ ts :=
  d.mem_of_mem_postorder nofun (Expr.number_mem_postorder mem)

/-- The tree of a calculation has plain numbers when they are finite: a minus is a sign of its own. -/
lemma WellFormed.hasPlainNumbers {settings : Settings} {text : Text} {ts : List Token} {tree : Expr}
    (w : WellFormed settings text ts tree) (finite : ∀ v ∈ tree.numbers, v.isFinite = true) :
    tree.HasPlainNumbers :=
  fun v mem => ⟨finite v mem, sign_of_tokenize w.tokens (w.derives.mem_of_mem_numbers mem)⟩

/-- The text of an expression with plain numbers is read, within its depth, as the text of that expression; so is
the text of the tree in a trace, under the same settings, when the numbers in the tree are finite. -/
theorem text_rereads :
    (∀ (e : Expr) (limit : Nat), e.HasPlainNumbers → e.depth ≤ limit → e.RereadsAs limit e.text) ∧
    ∀ (settings : Settings) (text : Text) (r : Reading), (Reading.ofCanonical settings text).outcome = .ok r →
      (∀ v ∈ r.tree.numbers, v.isFinite = true) → r.tree.RereadsAs settings.maxDepth r.trace.tree := by
  refine ⟨fun e limit plain fits => Expr.rereadsAs_text plain fits, ?_⟩
  intro settings text r outcome finite
  have course := Reading.course settings text
  generalize Reading.ofCanonical settings text = c at course outcome
  cases course with
  | result w _ _ =>
    cases outcome
    exact Expr.rereadsAs_text (w.hasPlainNumbers finite) w.shallow
  | _ => cases outcome

/-- The square of minus two, as the trace of its calculation writes it, does not read back as itself. -/
theorem text_rereads_of_signed_square :
    let two := Expr.number (Decimal.round .plus ⟨2, 0⟩)
    let square := Expr.binary .pow (.signed .minus two) two
    square.text = "(-2 ** 2)".toList ∧ square.RaisesSign ∧ square.RereadsAs 3 "(-2 ** 2)".toList ∧
      ∃ r, (Reading.ofCanonical {} "(-2)**2".toList).outcome = .ok r ∧ r.tree = square ∧
        square.RereadsAs 1000 r.trace.tree := by
  intro two square
  have written : square.text = "(-2 ** 2)".toList := by decide +kernel
  have plain : square.HasPlainNumbers := by
    intro v mem
    have same : v = Decimal.round .plus ⟨2, 0⟩ := by simpa [square, two, Expr.numbers] using mem
    rw [same]
    exact ⟨by decide +kernel, by decide +kernel⟩
  have reread := text_rereads.1 square 3 plain (by decide)
  rw [written] at reread
  refine ⟨written, .here, reread, ?_⟩
  have read : (Reading.ofCanonical {} "(-2)**2".toList).outcome.toOption.map Reading.tree = some square := by
    decide +kernel
  cases outcome : (Reading.ofCanonical {} "(-2)**2".toList).outcome with
  | error e =>
    rw [outcome] at read
    cases read
  | ok r =>
    rw [outcome] at read
    have tree : r.tree = square := Option.some.inj read
    have traced := text_rereads.2 {} "(-2)**2".toList r outcome (by
      rw [tree]
      exact fun v mem => (plain v mem).1)
    rw [tree] at traced
    exact ⟨r, rfl, tree, traced⟩

end Calculator
