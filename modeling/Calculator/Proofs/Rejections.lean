import Calculator.Proofs.Token.Language
import Calculator.Proofs.Yard.Grammar

/-!
# Rejections that no text meets

The stages guard against each other: the lexer against a numeral that cannot be read, the yard against a sign among
the tokens, the builder against a listing that is out of balance and a token that it does not know. None of these
guards is ever needed. What the lexer takes for a numeral is one (`Lexer.exists_numeral`), the tokens of a text hold no
sign, and what the yard accepts lists a tree, so the builder refuses nothing but its depth
(`ofPostorder_of_toPostorder`). Main statement: `guards_never_needed`.
-/

namespace Calculator

/-! ## Tokens -/

/-- A numeral that is taken is read as a number. -/
lemma Lexer.token_ne_malformedNumeral (c : Char) (rest lexeme : Text) :
    token c rest ≠ .error (.malformedNumeral lexeme) := by
  intro failed
  unfold token at failed
  split at failed
  · cases failed
  · split at failed
    · rcases error_of_number failed with same | same | ⟨digits, same⟩
      · cases same
      · cases same
      · cases same
    · cases failed

/-- The lexical error of a text is that of one of its tokens. -/
lemma exists_token_error {text : Text} {e : LexError} (failed : tokenize text = .error e) :
    ∃ c rest, Lexer.token c rest = .error e := by
  fun_induction tokenize text with
  | case1 => cases failed
  | case2 c rest blank ih => exact ih failed
  | case3 c rest notBlank err found =>
    cases failed
    exact ⟨c, rest, found⟩
  | case4 c rest notBlank t after found ih =>
    cases others : tokenize after with
    | error err =>
      rw [others] at failed
      cases failed
      exact ih others
    | ok us =>
      rw [others] at failed
      cases failed

/-- The tokens of a text hold no sign: a plus or minus is read as an operator. -/
lemma sign_not_mem_of_tokenize {text : Text} {ts : List Token} (tokens : tokenize text = .ok ts) (s : Sign) :
    .sign s ∉ ts := by
  intro mem
  obtain ⟨c, -, rest, after, found⟩ := exists_token_of_mem tokens mem
  rcases Lexer.token_cases found with (⟨op, same⟩ | same | same) | ⟨lexeme, v, value, same⟩
  · cases same
  · cases same
  · cases same
  · cases same

/-! ## The yard and the builder -/

namespace Yard

variable {limit : Nat} {y : Yard} {ts : List Token} {t : Token}

/-- Only a sign is an internal token to the yard. -/
lemma eq_sign_of_step (failed : y.step limit t = .error .internalToken) : ∃ s, t = .sign s := by
  cases t with
  | sign s => exact ⟨s, rfl⟩
  | number v =>
    simp only [step, number] at failed
    split at failed
    · cases failed
    · cases failed
  | op op =>
    simp only [step, operator] at failed
    split at failed
    · cases failed
    · split at failed
      · cases failed
      · cases failed
  | lparen =>
    simp only [step, openGroup] at failed
    split at failed
    · cases failed
    · split at failed
      · cases failed
      · cases failed
  | rparen =>
    simp only [step, closeGroup] at failed
    split at failed
    · split at failed
      · cases failed
      · cases failed
    · cases failed

/-- Only a sign among the tokens is an internal token. -/
lemma exists_sign_of_run (failed : y.run limit ts = .error .internalToken) : ∃ s, .sign s ∈ ts := by
  induction ts generalizing y with
  | nil => cases failed
  | cons t ts ih =>
    rw [run] at failed
    cases stepped : y.step limit t with
    | error e =>
      rw [stepped] at failed
      cases failed
      obtain ⟨s, rfl⟩ := eq_sign_of_step stepped
      exact ⟨s, List.mem_cons_self⟩
    | ok next =>
      rw [stepped] at failed
      obtain ⟨s, mem⟩ := ih failed
      exact ⟨s, List.mem_cons_of_mem t mem⟩

/-- No internal token is found at the end. -/
lemma finish_ne_internalToken (y : Yard) : y.finish ≠ .error .internalToken := by
  unfold finish
  split
  · split
    · nofun
    · nofun
  · nofun

end Yard

/-- Tokens that are refused for an internal one hold a sign. -/
lemma exists_sign_of_toPostorder {limit : Nat} {ts : List Token}
    (failed : toPostorder limit ts = .error .internalToken) : ∃ s, .sign s ∈ ts := by
  unfold toPostorder at failed
  cases ran : Yard.empty.run limit ts with
  | error e =>
    rw [ran] at failed
    cases failed
    exact Yard.exists_sign_of_run ran
  | ok y =>
    rw [ran] at failed
    exact absurd failed y.finish_ne_internalToken

/-- The builder gives the tree of what the yard has accepted, unless it is too deep. -/
lemma ofPostorder_of_toPostorder {limit : Nat} {ts output : List Token} (ordered : toPostorder limit ts = .ok output) :
    ∃ tree, Derives .sum ts tree ∧
      ∀ bound, Expr.ofPostorder bound output = if tree.depth ≤ bound then .ok tree else .error (.tooDeep bound) := by
  obtain ⟨-, tree, derives, rfl⟩ := derives_of_toPostorder ordered
  exact ⟨tree, derives, fun bound => Expr.ofPostorder_postorder bound tree⟩

/-- The message of a tree that is too deep is none of the other messages of the builder. -/
lemma TreeError.message_tooDeep_not_mem (limit : Nat) : (tooDeep limit).message ∉
    ["signe sans opérande", "expression invalide", "parenthèse inattendue en RPN", "jeton inattendu en RPN"] := by
  have spelled : (tooDeep limit).message = "arbre trop profond (> " ++ toString limit ++ ")" := rfl
  have opening : "arbre trop profond (> ".toList = 'a' :: "rbre trop profond (> ".toList := by decide +kernel
  -- It is the only one that starts with an `a`.
  have first : (tooDeep limit).message.toList.head? = some 'a' := by
    rw [spelled, String.toList_append, String.toList_append, opening, List.cons_append, List.cons_append,
      List.head?_cons]
  have others : ∀ other ∈ ["signe sans opérande", "expression invalide", "parenthèse inattendue en RPN",
      "jeton inattendu en RPN"], other.toList.head? ≠ some 'a' := by
    decide +kernel
  exact fun mem => others _ mem first

/-- No text has a numeral that cannot be read or a sign among its tokens, which would be an internal token to the yard;
and whatever the yard accepts, the builder refuses at most its depth: it misses no operand, leaves no value over, and
meets neither a bracket nor a token that is no operator. -/
theorem guards_never_needed (text : Text) :
    (∀ lexeme, tokenize text ≠ .error (.malformedNumeral lexeme)) ∧
    (∀ ts, tokenize text = .ok ts →
      (∀ s, .sign s ∉ ts) ∧ ∀ limit, toPostorder limit ts ≠ .error .internalToken) ∧
    ∀ limit ts output, toPostorder limit ts = .ok output →
      ∃ tree, Derives .sum ts tree ∧ ∀ bound,
        (tree.depth ≤ bound → Expr.ofPostorder bound output = .ok tree) ∧
        ∀ e, Expr.ofPostorder bound output = .error e → e = .tooDeep bound ∧ e.message ∉
          ["signe sans opérande", "expression invalide", "parenthèse inattendue en RPN", "jeton inattendu en RPN"] := by
  refine ⟨fun lexeme failed => ?_, fun ts tokens => ⟨sign_not_mem_of_tokenize tokens, fun limit failed => ?_⟩,
    fun limit ts output ordered => ?_⟩
  · obtain ⟨c, rest, found⟩ := exists_token_error failed
    exact Lexer.token_ne_malformedNumeral c rest lexeme found
  · obtain ⟨s, mem⟩ := exists_sign_of_toPostorder failed
    exact sign_not_mem_of_tokenize tokens s mem
  · obtain ⟨tree, derives, built⟩ := ofPostorder_of_toPostorder ordered
    refine ⟨tree, derives, fun bound => ⟨fun fits => ?_, fun e failed => ?_⟩⟩
    · rw [built, if_pos fits]
    · rw [built] at failed
      split at failed
      · cases failed
      · cases failed
        exact ⟨rfl, TreeError.message_tooDeep_not_mem bound⟩

/-- The tokens of a product by a negated group hold no sign though their postfix order does; the tree is one level too
deep for the bound, and that is what it is refused for. -/
theorem guards_never_needed_of_signed_group :
    ∃ ts output, tokenize "2*-(3)".toList = .ok ts ∧ toPostorder 1 ts = .ok output ∧ .sign .minus ∈ output ∧
      (∀ s, .sign s ∉ ts) ∧ toPostorder 0 ts ≠ .error .internalToken ∧
      (∃ e, Expr.ofPostorder 2 output = .error e) ∧
      ∀ e, Expr.ofPostorder 2 output = .error e → e = .tooDeep 2 ∧ e.message ∉
        ["signe sans opérande", "expression invalide", "parenthèse inattendue en RPN", "jeton inattendu en RPN"] := by
  let two := Decimal.round .plus ⟨2, 0⟩
  let three := Decimal.round .plus ⟨3, 0⟩
  have tokens : tokenize "2*-(3)".toList =
      .ok [.number two, .op .mul, .op .sub, .lparen, .number three, .rparen] := by
    decide +kernel
  have ordered : toPostorder 1 [.number two, .op .mul, .op .sub, .lparen, .number three, .rparen] =
      .ok [.number two, .number three, .sign .minus, .op .mul] := by
    decide +kernel
  have deep : Expr.ofPostorder 2 [.number two, .number three, .sign .minus, .op .mul] = .error (.tooDeep 2) := by
    decide +kernel
  obtain ⟨-, unsigned, listed⟩ := guards_never_needed "2*-(3)".toList
  obtain ⟨noSign, noInternal⟩ := unsigned _ tokens
  obtain ⟨tree, -, built⟩ := listed 1 _ _ ordered
  exact ⟨_, _, tokens, ordered, by decide, noSign, noInternal 0, ⟨_, deep⟩, (built 2).2⟩

end Calculator
