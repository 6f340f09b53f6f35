import Mathlib.Data.Bool.AllAny
import Mathlib.Data.List.Basic
import Calculator.Proofs.Course
import Calculator.Proofs.Rejections
import Calculator.Proofs.Result
import Calculator.Proofs.Token.Seams

/-!
# Reading the text of tokens

Tokens are written with one space between neighbours, and a space ends every lexeme. So neighbours never run into one
another: the text of plain tokens is read as these tokens (`tokenize_listText`), and a calculation can be repeated from
the tokens that its trace shows (`WellFormed.of_listText`). Main statement: `listText_rereads`.
-/

namespace Calculator

/-! ## The characters of token texts -/

namespace Binary64

/-- All characters of the text of a number are kept. -/
lemma kept_of_mem_text {v : Binary64} : ∀ c ∈ v.text, Kept c := by
  cases v with
  | nan => exact List.all_iff_forall_prop.mp (by decide)
  | infinite s => exact s.kept_put (List.all_iff_forall_prop.mp (by decide))
  | finite s m =>
    obtain ⟨n, writes⟩ := Decimal.exists_numeral_shortest m
    rw [text, ← writes.text_eq]
    exact kept_put n s

/-- The text of a number is not empty. -/
lemma text_ne_nil (v : Binary64) : v.text ≠ [] := by
  cases v with
  | nan => exact List.cons_ne_nil _ _
  | infinite s => exact s.put_ne_nil (List.cons_ne_nil _ _)
  | finite s m =>
    obtain ⟨n, writes⟩ := Decimal.exists_numeral_shortest m
    rw [text, ← writes.text_eq]
    exact s.put_ne_nil n.text_ne_nil

end Binary64

namespace Token

/-- The text of a token is not empty. -/
lemma text_ne_nil (t : Token) : t.text ≠ [] := by
  cases t with
  | number v => exact v.text_ne_nil
  | op o => cases o <;> exact List.cons_ne_nil _ _
  | sign s => cases s <;> exact List.cons_ne_nil _ _
  | lparen => exact List.cons_ne_nil _ _
  | rparen => exact List.cons_ne_nil _ _

/-- An entry keeps the characters of every token but the remainder, whose symbol is a percent sign there. -/
lemma kept_of_mem_text {t : Token} (other : t ≠ .op .mod) : ∀ c ∈ t.text, Kept c := by
  cases t with
  | number v => exact v.kept_of_mem_text
  | op o =>
    cases o with
    | mod => exact absurd rfl other
    | _ => exact List.all_iff_forall_prop.mp (by decide)
  | sign s => cases s <;> exact List.all_iff_forall_prop.mp (by decide)
  | lparen => exact List.all_iff_forall_prop.mp (by decide)
  | rparen => exact List.all_iff_forall_prop.mp (by decide)

/-- No character of the text of a token is blank. -/
lemma isBlank_of_mem_text {t : Token} {c : Char} (mem : c ∈ t.text) : isBlank c = false := by
  by_cases isMod : t = .op .mod
  · subst isMod
    rw [List.mem_singleton.mp mem]
    decide
  · exact (kept_of_mem_text isMod c mem).1

/-- The texts of two tokens are apart by a space. -/
lemma listText_cons_cons (t u : Token) (ts : List Token) :
    listText (t :: u :: ts) = t.text ++ ' ' :: listText (u :: ts) :=
  rfl

/-- The text of some tokens is not empty. -/
lemma listText_ne_nil {ts : List Token} (nonempty : ts ≠ []) : listText ts ≠ [] := by
  cases ts with
  | nil => exact absurd rfl nonempty
  | cons t ts =>
    cases ts with
    | nil => exact t.text_ne_nil
    | cons u ts => simp [listText_cons_cons]

/-- The text of tokens starts with no blank. -/
lemma isBlank_head?_listText {ts : List Token} {c : Char} (isHead : c ∈ (listText ts).head?) : isBlank c = false := by
  cases ts with
  | nil => cases isHead
  | cons t ts =>
    refine isBlank_of_mem_text (t := t) ?_
    cases ts with
    | nil => exact List.mem_of_mem_head? isHead
    | cons u ts =>
      rw [listText_cons_cons, List.head?_append_of_ne_nil _ t.text_ne_nil] at isHead
      exact List.mem_of_mem_head? isHead

/-- The text of tokens ends with no blank. -/
lemma isBlank_getLast?_listText {ts : List Token} {c : Char} (isLast : c ∈ (listText ts).getLast?) :
    isBlank c = false := by
  induction ts with
  | nil => cases isLast
  | cons t ts ih =>
    cases ts with
    | nil => exact isBlank_of_mem_text (List.mem_of_getLast? isLast)
    | cons u ts =>
      have nonempty := listText_ne_nil (List.cons_ne_nil u ts)
      rw [listText_cons_cons, List.getLast?_append_of_ne_nil _ (List.cons_ne_nil _ _),
        List.getLast?_cons_of_ne_nil nonempty] at isLast
      exact ih isLast

/-- The spaces stand between tokens only, so there is nothing to trim. -/
lemma trim_listText (ts : List Token) : (listText ts).trim = listText ts :=
  Text.trim_eq_self (fun _ => isBlank_head?_listText) fun _ => isBlank_getLast?_listText

/-! ## Reading -/

/-- The token may be read from a text, and its number is finite: it is no sign, and no minus is part of a number. -/
def IsPlain : Token → Prop
  | number v => v.isFinite = true ∧ v.sign = .plus
  | sign _ => False
  | _ => True

/-- Whether a token is plain is decided by its number. -/
instance : DecidablePred IsPlain
  | number v => inferInstanceAs (Decidable (v.isFinite = true ∧ v.sign = .plus))
  | sign _ => inferInstanceAs (Decidable False)
  | op _ => inferInstanceAs (Decidable True)
  | lparen => inferInstanceAs (Decidable True)
  | rparen => inferInstanceAs (Decidable True)

/-- The text of a plain token is read as that token. -/
lemma IsPlain.tokenize_text {t : Token} (plain : t.IsPlain) : tokenize t.text = .ok [t] := by
  cases t with
  | number v =>
    obtain ⟨isFinite, isPositive⟩ := plain
    cases v with
    | nan => cases isFinite
    | infinite s => cases isFinite
    | finite s m =>
      cases isPositive
      exact tokenize_number m
  | op o =>
    have alone : tokenize (o.symbol ++ []) = (tokenize []).map (.op o :: ·) :=
      tokenize_operator o (by simp) (by simp)
    rw [List.append_nil, tokenize_nil] at alone
    exact alone
  | sign s => exact plain.elim
  | lparen => exact (tokenize_lparen []).trans (by rw [tokenize_nil]; rfl)
  | rparen => exact (tokenize_rparen []).trans (by rw [tokenize_nil]; rfl)

end Token

/-- The text of plain tokens is read as these tokens, whichever stand side by side. -/
lemma tokenize_listText {ts : List Token} (plain : ∀ t ∈ ts, t.IsPlain) : tokenize (Token.listText ts) = .ok ts := by
  induction ts with
  | nil => exact tokenize_nil
  | cons t ts ih =>
    have first := (plain t List.mem_cons_self).tokenize_text
    cases ts with
    | nil => exact first
    | cons u ts =>
      have space : isBlank ' ' = true := by decide
      have others := ih fun t mem => plain t (List.mem_cons_of_mem _ mem)
      rw [Token.listText_cons_cons, tokenize_append_of_breaks (.of_isBlank space), first,
        tokenize_of_isBlank space, others]
      rfl

/-- The tokens of a text are plain when its numbers are finite. -/
lemma isPlain_of_tokenize {text : Text} {ts : List Token} (tokens : tokenize text = .ok ts)
    (finite : ∀ v, .number v ∈ ts → v.isFinite = true) : ∀ t ∈ ts, t.IsPlain := by
  intro t mem
  cases t with
  | number v => exact ⟨finite v mem, sign_of_tokenize tokens mem⟩
  | sign s => exact sign_not_mem_of_tokenize tokens s mem
  | op o => exact trivial
  | lparen => exact trivial
  | rparen => exact trivial

/-! ## Calculating again from the tokens -/

/-- The text of the plain tokens of a well-formed text is as well formed, unless it is too long. -/
lemma WellFormed.of_listText {settings other : Settings} {text : Text} {ts : List Token} {tree : Expr}
    (w : WellFormed settings text ts tree) (plain : ∀ t ∈ ts, t.IsPlain)
    (deep : settings.maxDepth ≤ other.maxDepth) (long : (Token.listText ts).length ≤ other.maxLength) :
    WellFormed other (Token.listText ts) ts tree where
  nonempty := by
    rw [Token.trim_listText]
    exact Token.listText_ne_nil w.derives.ne_nil
  short := by rwa [Token.trim_listText]
  tokens := by
    rw [Token.trim_listText]
    exact tokenize_listText plain
  derives := w.derives
  nests := Nat.le_trans w.nests deep
  shallow := Nat.le_trans w.shallow deep

/-- The text of tokens, among them no sign and no number but finite ones without a minus, is read as these tokens; and
so are the tokens of every text whose numbers are finite. The line of tokens in the trace of such a text goes through
the stages as the text did, and its calculation differs from that of the text in the canonical text alone, under all
settings that are as deep and leave room for it. -/
theorem listText_rereads :
    (∀ ts : List Token, (∀ t ∈ ts, t.IsPlain) → tokenize (Token.listText ts) = .ok ts) ∧
    (∀ text ts, tokenize text = .ok ts → (∀ v, .number v ∈ ts → v.isFinite = true) → ∀ t ∈ ts, t.IsPlain) ∧
    ∀ settings text r, (Reading.ofCanonical settings text).outcome = .ok r →
      (∀ v, .number v ∈ r.tokens → v.isFinite = true) →
      tokenize r.trace.tokens = .ok r.tokens ∧
        toPostorder settings.maxDepth r.tokens = .ok r.postorder ∧
        Expr.ofPostorder settings.maxDepth r.postorder = .ok r.tree ∧
        ∀ other : Settings, settings.maxDepth ≤ other.maxDepth → r.trace.tokens.length ≤ other.maxLength →
          (Reading.ofCanonical other r.trace.tokens).outcome = .ok { r with canonical := r.trace.tokens } := by
  refine ⟨fun ts => tokenize_listText, fun text ts => isPlain_of_tokenize, fun settings text r outcome finite => ?_⟩
  obtain ⟨ts, tree, v, w, evaluates, isFinite, rfl⟩ := Reading.outcome_ofCanonical_eq_ok_iff.mp outcome
  have plain := isPlain_of_tokenize w.tokens finite
  have built := Expr.ofPostorder_postorder settings.maxDepth tree
  rw [if_pos w.shallow] at built
  refine ⟨tokenize_listText plain, w.derives.toPostorder w.nests, built, fun other deep long => ?_⟩
  have again : WellFormed other (Token.listText ts) ts tree := w.of_listText plain deep long
  have reading := Reading.outcome_ofCanonical_eq_ok_iff.mpr ⟨ts, tree, v, again, evaluates, isFinite, rfl⟩
  rw [Token.trim_listText] at reading
  exact reading

/-- Two stars that stand side by side stay two, behind a number of more digits than it was written with; and the
tokens of a division give the division back under bounds that they just meet. -/
theorem listText_rereads_of_quotient :
    let great := Decimal.round .plus ⟨1, 21⟩
    let seven := Decimal.round .plus ⟨7, 0⟩
    let two := Decimal.round .plus ⟨2, 0⟩
    let division : List Token := [.number seven, .op .floorDiv, .number two, .op .div, .number two]
    tokenize "1000000000000000000000 1000000000000000000000 * * / /".toList =
        .ok [.number great, .number great, .op .mul, .op .mul, .op .div, .op .div] ∧
      (∀ t ∈ division, t.IsPlain) ∧
      ∃ r, (Reading.ofCanonical ⟨3, 7⟩ "7//2/ 2".toList).outcome = .ok r ∧ r.tokens = division ∧
        (Reading.ofCanonical ⟨3, 10⟩ "7 // 2 / 2".toList).outcome =
          .ok { r with canonical := "7 // 2 / 2".toList } := by
  intro great seven two division
  obtain ⟨rereads, reads, repeats⟩ := listText_rereads
  have finite : ∀ v, .number v ∈ division → v.isFinite = true := by
    intro v mem
    have among : v = seven ∨ v = two ∨ v = two := by simpa [division] using mem
    rcases among with rfl | rfl | rfl <;> decide +kernel
  refine ⟨?_, reads "7//2/ 2".toList division (by decide +kernel) finite, ?_⟩
  · have plain : ∀ t ∈ [Token.number great, .number great, .op .mul, .op .mul, .op .div, .op .div], t.IsPlain := by
      decide +kernel
    have written : Token.listText [.number great, .number great, .op .mul, .op .mul, .op .div, .op .div] =
        "1000000000000000000000 1000000000000000000000 * * / /".toList := by
      decide +kernel
    have read := rereads _ plain
    rwa [written] at read
  · have line : Token.listText division = "7 // 2 / 2".toList := by decide +kernel
    have found : (Reading.ofCanonical ⟨3, 7⟩ "7//2/ 2".toList).outcome.toOption.map Reading.tokens =
        some division := by
      decide +kernel
    cases outcome : (Reading.ofCanonical ⟨3, 7⟩ "7//2/ 2".toList).outcome with
    | error e =>
      rw [outcome] at found
      cases found
    | ok r =>
      rw [outcome] at found
      have tokens : r.tokens = division := Option.some.inj found
      obtain ⟨-, -, -, again⟩ := repeats ⟨3, 7⟩ _ r outcome (tokens ▸ finite)
      have written : r.trace.tokens = "7 // 2 / 2".toList := by
        rw [← line, ← tokens]
        rfl
      rw [written] at again
      exact ⟨r, rfl, tokens, again ⟨3, 10⟩ (by decide) (by decide)⟩

end Calculator
