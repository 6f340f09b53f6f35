import Calculator.Proofs.Course

/-!
# What the builder accepts

The stack of the builder is a forest that lists the tokens read so far, each tree kept with its own depth, and one more
token takes its operands from the top (`Forest.Grows`). So a list that is built is the postfix listing of its tree
(`Expr.ofPostorder_eq_ok_iff`), and some tree is listed exactly when every operator of the list finds its operands and
one value is left (`balanced_iff_exists_postorder`). Main statement: the builder inverts the listing within the bound
on depth, refuses what is not balanced, and hands no deeper tree to evaluation (`ofPostorder_ok_iff`).
-/

namespace Calculator

namespace Forest

/-- The tokens that the trees list, the tree at the bottom first. -/
def listing (forest : Forest) : List Token :=
  forest.reverse.flatMap fun tree => tree.1.postorder

/-- Every tree is kept with its own depth, which is within the bound. -/
def Bounded (limit : Nat) (forest : Forest) : Prop :=
  ∀ tree ∈ forest, tree.2 = tree.1.depth ∧ tree.2 ≤ limit

/-- One more token takes its operands from the top and puts there the tree that it makes of them. -/
inductive Grows (limit : Nat) : Forest → Token → Forest → Prop where
  | number {v forest} :
    1 ≤ limit →
    Grows limit forest (.number v) ((.number v, 1) :: forest)
  | sign {s x d rest} :
    d + 1 ≤ limit →
    Grows limit ((x, d) :: rest) (.sign s) ((.signed s x, d + 1) :: rest)
  | operator {op a b m n rest} :
    max m n + 1 ≤ limit →
    Grows limit ((b, n) :: (a, m) :: rest) (.op op) ((.binary op a b, max m n + 1) :: rest)

variable {limit : Nat} {forest next : Forest} {t : Token} {ts : List Token}

/-- The tree on top is listed last. -/
lemma listing_cons (tree : Expr × Nat) (rest : Forest) :
    listing (tree :: rest) = rest.listing ++ tree.1.postorder := by
  simp [listing]

/-- A forest is bounded when the tree on top and those below are. -/
lemma bounded_cons {tree : Expr × Nat} {rest : Forest} :
    Bounded limit (tree :: rest) ↔ (tree.2 = tree.1.depth ∧ tree.2 ≤ limit) ∧ Bounded limit rest :=
  List.forall_mem_cons

/-- The empty forest is bounded. -/
lemma bounded_nil : Bounded limit [] :=
  fun _ mem => absurd mem List.not_mem_nil

/-! ## One token -/

/-- A tree is put on top unless it is too deep. -/
lemma grow_eq_ok_iff {tree : Expr} {depth : Nat} :
    grow limit forest tree depth = .ok next ↔ depth ≤ limit ∧ next = (tree, depth) :: forest := by
  rw [grow_eq]
  split
  · rename_i fits
    simp [fits, eq_comm]
  · rename_i deep
    simp [deep]

/-- A token is accepted exactly when the forest grows by it. -/
lemma step_eq_ok_iff : step limit forest t = .ok next ↔ Grows limit forest t next := by
  constructor
  · intro stepped
    cases t with
    | number v =>
      obtain ⟨fits, rfl⟩ := grow_eq_ok_iff.mp stepped
      exact .number fits
    | sign s =>
      cases forest with
      | nil => cases stepped
      | cons tree rest =>
        obtain ⟨fits, rfl⟩ := grow_eq_ok_iff.mp stepped
        exact .sign fits
    | op op =>
      cases forest with
      | nil => cases stepped
      | cons right below =>
        cases below with
        | nil => cases stepped
        | cons left rest =>
          obtain ⟨fits, rfl⟩ := grow_eq_ok_iff.mp stepped
          exact .operator fits
    | lparen => cases stepped
    | rparen => cases stepped
  · rintro (fits | fits | fits)
    · exact grow_eq_ok_iff.mpr ⟨fits, rfl⟩
    · exact grow_eq_ok_iff.mpr ⟨fits, rfl⟩
    · exact grow_eq_ok_iff.mpr ⟨fits, rfl⟩

namespace Grows

/-- The trees list one token more. -/
lemma listing (g : Grows limit forest t next) : next.listing = forest.listing ++ [t] := by
  cases g with
  | number _ => simp [listing_cons, Expr.postorder]
  | sign _ => simp [listing_cons, Expr.postorder]
  | operator _ => simp [listing_cons, Expr.postorder]

/-- The depth that is counted is the depth of the tree. -/
lemma bounded (g : Grows limit forest t next) (b : Bounded limit forest) : Bounded limit next := by
  cases g with
  | number fits => exact bounded_cons.mpr ⟨⟨rfl, fits⟩, b⟩
  | sign fits =>
    obtain ⟨⟨depth, -⟩, below⟩ := bounded_cons.mp b
    refine bounded_cons.mpr ⟨⟨?_, fits⟩, below⟩
    simp only at depth
    simp only [Expr.depth, depth]
  | operator fits =>
    obtain ⟨⟨right, -⟩, b⟩ := bounded_cons.mp b
    obtain ⟨⟨left, -⟩, below⟩ := bounded_cons.mp b
    refine bounded_cons.mpr ⟨⟨?_, fits⟩, below⟩
    simp only at left right
    simp only [Expr.depth, left, right]

/-- A forest that has grown has a tree. -/
lemma ne_nil (g : Grows limit forest t next) : next ≠ [] := by
  cases g <;> exact List.cons_ne_nil _ _

/-- No forest grows by a bracket. -/
lemma noBracket (g : Grows limit forest t next) : t ≠ .lparen ∧ t ≠ .rparen := by
  cases g <;> simp

end Grows

/-! ## A run of tokens -/

/-- A list of tokens is accepted when the forest grows by the first and the others are accepted then. -/
lemma run_cons_eq_ok_iff : run limit forest (t :: ts) = .ok next ↔
    ∃ mid, Grows limit forest t mid ∧ run limit mid ts = .ok next := by
  rw [run]
  cases stepped : step limit forest t with
  | error e =>
    refine iff_of_false (by simp) ?_
    rintro ⟨mid, g, -⟩
    rw [step_eq_ok_iff.mpr g] at stepped
    cases stepped
  | ok mid =>
    refine ⟨fun ran => ⟨mid, step_eq_ok_iff.mp stepped, ran⟩, ?_⟩
    rintro ⟨other, g, ran⟩
    rw [step_eq_ok_iff.mpr g] at stepped
    cases stepped
    exact ran

/-- Two runs of tokens are accepted when the first is, and the second after it. -/
lemma run_append_eq_ok_iff {us : List Token} : run limit forest (ts ++ us) = .ok next ↔
    ∃ mid, run limit forest ts = .ok mid ∧ run limit mid us = .ok next := by
  rw [run_append]
  cases run limit forest ts with
  | error e => simp [Except.bind]
  | ok mid => simp [Except.bind]

/-- The trees list what has been read, and are kept with their depths. -/
lemma listing_of_run (b : Bounded limit forest) (ran : run limit forest ts = .ok next) :
    next.listing = forest.listing ++ ts ∧ Bounded limit next := by
  induction ts generalizing forest with
  | nil =>
    cases ran
    exact ⟨(List.append_nil _).symm, b⟩
  | cons t ts ih =>
    obtain ⟨mid, g, ran⟩ := run_cons_eq_ok_iff.mp ran
    obtain ⟨lists, bounded⟩ := ih (g.bounded b) ran
    refine ⟨?_, bounded⟩
    rw [lists, g.listing, List.append_assoc]
    rfl

end Forest

namespace Expr

/-- What is built is the listed expression, and only within the bound on depth. -/
lemma ofPostorder_eq_ok_iff {limit : Nat} {ts : List Token} {e : Expr} :
    ofPostorder limit ts = .ok e ↔ ts = e.postorder ∧ e.depth ≤ limit := by
  constructor
  · intro built
    unfold ofPostorder at built
    cases ran : Forest.run limit [] ts with
    | error err =>
      rw [ran] at built
      cases built
    | ok forest =>
      rw [ran] at built
      obtain ⟨lists, bounded⟩ := Forest.listing_of_run Forest.bounded_nil ran
      match forest with
      | [] => cases built
      | [(x, d)] =>
        cases built
        obtain ⟨same, fits⟩ := bounded (e, d) List.mem_cons_self
        refine ⟨?_, Nat.le_trans (Nat.le_of_eq same.symm) fits⟩
        simpa [Forest.listing] using lists.symm
      | _ :: _ :: _ => cases built
  · rintro ⟨rfl, fits⟩
    rw [ofPostorder_postorder, if_pos fits]

end Expr

/-! ## Balance -/

namespace Token

/-- Whether a token is a number. -/
def isNumber : Token → Bool
  | number _ => true
  | _ => false

/-- Whether a token is an operator between two values. -/
def isBinary : Token → Bool
  | op _ => true
  | _ => false

/-- How many numbers the tokens hold. -/
def numberCount (ts : List Token) : Nat :=
  ts.countP isNumber

/-- How many operators the tokens hold. -/
def binaryCount (ts : List Token) : Nat :=
  ts.countP isBinary

end Token

/-- The tokens hold no bracket, a value is at hand after each of them, whatever the operators before it have taken,
and one value is left at the end. -/
structure Balanced (ts : List Token) : Prop where
  noBracket : ∀ t ∈ ts, t ≠ .lparen ∧ t ≠ .rparen
  supplied : ∀ front, front <+: ts → front ≠ [] → Token.binaryCount front < Token.numberCount front
  single : Token.numberCount ts = Token.binaryCount ts + 1

namespace Forest

variable {limit : Nat} {forest next : Forest} {t : Token} {ts : List Token}

/-- A number adds a tree, and an operator takes one away. -/
lemma Grows.length (g : Grows limit forest t next) :
    next.length + Token.binaryCount [t] = forest.length + Token.numberCount [t] := by
  cases g <;> simp [Token.binaryCount, Token.numberCount, Token.isBinary, Token.isNumber]

/-- A number adds a tree, and an operator makes two trees into one. -/
lemma length_of_run (ran : run limit forest ts = .ok next) :
    next.length + Token.binaryCount ts = forest.length + Token.numberCount ts := by
  induction ts generalizing forest with
  | nil =>
    cases ran
    rfl
  | cons t ts ih =>
    obtain ⟨mid, g, ran⟩ := run_cons_eq_ok_iff.mp ran
    have first := g.length
    have others := ih ran
    rw [Token.binaryCount, Token.numberCount, ← List.singleton_append, List.countP_append, List.countP_append]
    simp only [Token.binaryCount, Token.numberCount] at first others
    omega

/-- Some tokens leave a forest with a tree. -/
lemma ne_nil_of_run (ran : run limit forest ts = .ok next) (nonempty : ts ≠ []) : next ≠ [] := by
  induction ts generalizing forest with
  | nil => exact absurd rfl nonempty
  | cons t ts ih =>
    obtain ⟨mid, g, ran⟩ := run_cons_eq_ok_iff.mp ran
    cases ts with
    | nil =>
      cases ran
      exact g.ne_nil
    | cons u us => exact ih ran (List.cons_ne_nil u us)

/-- No bracket is among the tokens that are accepted. -/
lemma noBracket_of_run (ran : run limit forest ts = .ok next) : ∀ t ∈ ts, t ≠ .lparen ∧ t ≠ .rparen := by
  induction ts generalizing forest with
  | nil => exact fun t mem => absurd mem List.not_mem_nil
  | cons t ts ih =>
    obtain ⟨mid, g, ran⟩ := run_cons_eq_ok_iff.mp ran
    exact List.forall_mem_cons.mpr ⟨g.noBracket, ih ran⟩

/-- A token that is no bracket goes on when its operands are at hand and no tree is as deep as the bound. -/
lemma exists_grows (isNoBracket : t ≠ .lparen ∧ t ≠ .rparen)
    (supplied : Token.binaryCount [t] < forest.length + Token.numberCount [t])
    (shallow : ∀ tree ∈ forest, tree.2 < limit) (pos : 0 < limit) : ∃ next, Grows limit forest t next := by
  cases t with
  | number v => exact ⟨_, .number pos⟩
  | sign s =>
    cases forest with
    | nil => cases supplied
    | cons tree rest => exact ⟨_, .sign (shallow tree List.mem_cons_self)⟩
  | op op =>
    match forest with
    | [] => cases supplied
    | [_] => exact absurd supplied (Nat.lt_irrefl 1)
    | (b, n) :: (a, m) :: rest =>
      have right := shallow (b, n) List.mem_cons_self
      have left := shallow (a, m) (List.mem_cons_of_mem _ List.mem_cons_self)
      exact ⟨_, .operator (Nat.max_lt.mpr ⟨left, right⟩)⟩
  | lparen => exact absurd rfl isNoBracket.1
  | rparen => exact absurd rfl isNoBracket.2

end Forest

/-- An expression is no deeper than its listing is long. -/
lemma Expr.depth_le_length_postorder (e : Expr) : e.depth ≤ e.postorder.length := by
  induction e with
  | number v => exact Nat.le_refl 1
  | signed s x ih =>
    simp only [depth, postorder, List.length_append, List.length_singleton]
    omega
  | binary op a b left right =>
    simp only [depth, postorder, List.length_append, List.length_singleton]
    omega

namespace Forest

/-- The listing of a tree is part of that of the forest. -/
lemma length_postorder_le {tree : Expr × Nat} {forest : Forest} (mem : tree ∈ forest) :
    tree.1.postorder.length ≤ forest.listing.length := by
  induction forest with
  | nil => exact absurd mem List.not_mem_nil
  | cons top rest ih =>
    rw [listing_cons, List.length_append]
    rcases List.mem_cons.mp mem with rfl | mem
    · exact Nat.le_add_left _ _
    · exact Nat.le_trans (ih mem) (Nat.le_add_right _ _)

/-- No tree is deeper than the number of tokens that have been read. -/
lemma depth_le_of_run {limit : Nat} {ts : List Token} {forest : Forest} (ran : run limit [] ts = .ok forest) :
    ∀ tree ∈ forest, tree.2 ≤ ts.length := by
  intro tree mem
  obtain ⟨lists, bounded⟩ := listing_of_run bounded_nil ran
  have within := length_postorder_le mem
  rw [lists] at within
  calc tree.2 = tree.1.depth := (bounded tree mem).1
    _ ≤ tree.1.postorder.length := tree.1.depth_le_length_postorder
    _ ≤ ts.length := within

/-- A balanced list is built to its end when the bound leaves room for all its tokens. -/
lemma exists_run {front rest : List Token} {limit : Nat} {forest : Forest} (b : Balanced (front ++ rest))
    (room : (front ++ rest).length ≤ limit) (ran : run limit [] front = .ok forest) :
    ∃ next, run limit forest rest = .ok next := by
  -- the front grows by the tokens that the rest loses, and its counts tell how many trees are at hand
  induction rest generalizing front forest with
  | nil => exact ⟨forest, rfl⟩
  | cons t rest ih =>
    have split : front ++ t :: rest = (front ++ [t]) ++ rest := by simp
    have length : front.length < limit := by
      rw [List.length_append, List.length_cons] at room
      omega
    have isNoBracket := b.noBracket t (List.mem_append_right _ List.mem_cons_self)
    have enough := b.supplied (front ++ [t]) (split ▸ List.prefix_append _ _) (by simp)
    have counted := length_of_run ran
    have supplied : Token.binaryCount [t] < forest.length + Token.numberCount [t] := by
      simp only [Token.binaryCount, Token.numberCount, List.countP_append, List.length_nil] at enough counted ⊢
      omega
    have shallow : ∀ tree ∈ forest, tree.2 < limit :=
      fun tree mem => Nat.lt_of_le_of_lt (depth_le_of_run ran tree mem) length
    obtain ⟨mid, g⟩ := exists_grows isNoBracket supplied shallow (Nat.zero_lt_of_lt length)
    have ranOn : run limit [] (front ++ [t]) = .ok mid :=
      run_append_eq_ok_iff.mpr ⟨forest, ran, run_cons_eq_ok_iff.mpr ⟨mid, g, rfl⟩⟩
    rw [split] at b room
    obtain ⟨next, others⟩ := ih b room ranOn
    exact ⟨next, run_cons_eq_ok_iff.mpr ⟨mid, g, others⟩⟩

end Forest

/-- The listing of an expression is balanced. -/
lemma Expr.balanced_postorder (e : Expr) : Balanced e.postorder := by
  have ran := Forest.run_postorder e.depth [] e
  rw [if_pos (Nat.le_refl _)] at ran
  refine ⟨Forest.noBracket_of_run ran, ?_, ?_⟩
  · rintro front ⟨rest, split⟩ nonempty
    rw [← split] at ran
    obtain ⟨mid, ranFront, -⟩ := Forest.run_append_eq_ok_iff.mp ran
    have counted := Forest.length_of_run ranFront
    have pos := List.length_pos_iff.mpr (Forest.ne_nil_of_run ranFront nonempty)
    simp only [List.length_nil] at counted
    omega
  · have counted := Forest.length_of_run ran
    simp only [List.length_nil, List.length_singleton] at counted
    omega

/-- A list of tokens lists some expression exactly when it is balanced. -/
lemma balanced_iff_exists_postorder {ts : List Token} : Balanced ts ↔ ∃ e : Expr, ts = e.postorder := by
  constructor
  · intro b
    have whole : Balanced ([] ++ ts) := b
    have room : ([] ++ ts).length ≤ ts.length := Nat.le_refl _
    obtain ⟨forest, ran⟩ := Forest.exists_run whole room rfl
    have counted := Forest.length_of_run ran
    rw [b.single] at counted
    simp only [List.length_nil] at counted
    obtain ⟨⟨e, d⟩, rfl⟩ := List.length_eq_one_iff.mp (by omega : forest.length = 1)
    have built : Expr.ofPostorder ts.length ts = .ok e := by
      rw [Expr.ofPostorder, ran]
      rfl
    exact ⟨e, (Expr.ofPostorder_eq_ok_iff.mp built).1⟩
  · rintro ⟨e, rfl⟩
    exact e.balanced_postorder

/-! ## What is evaluated -/

/-- The calculation of a text that goes on with the evaluation of its tree. -/
def Reading.ofTree (text : Text) (ts : List Token) (tree : Expr) : Logged Reading := do
  Logged.emit (.reading text)
  let value ← tree.eval
  let finite ← Logged.accept id (requireFinite value)
  Logged.emit (.result finite)
  pure ⟨text, ts, tree.postorder, tree, finite⟩

/-- A calculation evaluates a tree that the builder has let pass, or ends with a rejection before it has a value. -/
lemma Reading.ofCanonical_cases (settings : Settings) (text : Text) :
    (∃ ts tree, tokenize text.trim = .ok ts ∧ toPostorder settings.maxDepth ts = .ok tree.postorder ∧
      tree.depth ≤ settings.maxDepth ∧ ofCanonical settings text = ofTree text.trim ts tree) ∨
    ∃ opening reason, (∀ v, reason ≠ .notFinite v) ∧
      ofCanonical settings text = ⟨opening ++ [.rejected reason], .error .invalidExpression⟩ := by
  by_cases wellFormed : ∃ ts tree, WellFormed settings text ts tree
  · obtain ⟨ts, tree, w⟩ := wellFormed
    exact .inl ⟨ts, tree, w.tokens, w.derives.toPostorder w.nests, w.shallow, w.ofCanonical⟩
  · have rejected := rejected_of_not_wellFormed wellFormed
    generalize ofCanonical settings text = c at rejected
    cases rejected with
    | unread _ early => exact .inr ⟨[], _, early, rfl⟩
    | read _ _ early => exact .inr ⟨[_], _, early, rfl⟩

/-- A list of tokens is built into an expression exactly when it is the postfix listing of that expression, operands
from left to right, and the expression is within the bound on depth; a list with a bracket, or with a value missing
or left over, lists no expression and is refused. A calculation evaluates no tree but one within the bound. -/
theorem ofPostorder_ok_iff :
    (∀ limit ts e, Expr.ofPostorder limit ts = .ok e ↔ ts = e.postorder ∧ e.depth ≤ limit) ∧
    (∀ ts, Balanced ts ↔ ∃ e : Expr, ts = e.postorder) ∧
    (∀ limit ts, ¬ Balanced ts → ∃ error, Expr.ofPostorder limit ts = .error error) ∧
    ∀ settings text,
      (∃ ts tree, tokenize text.trim = .ok ts ∧ toPostorder settings.maxDepth ts = .ok tree.postorder ∧
        tree.depth ≤ settings.maxDepth ∧ Reading.ofCanonical settings text = Reading.ofTree text.trim ts tree) ∨
      ∃ opening reason, (∀ v, reason ≠ .notFinite v) ∧
        Reading.ofCanonical settings text = ⟨opening ++ [.rejected reason], .error .invalidExpression⟩ := by
  refine ⟨fun limit ts e => Expr.ofPostorder_eq_ok_iff, fun ts => balanced_iff_exists_postorder, ?_,
    Reading.ofCanonical_cases⟩
  intro limit ts unbalanced
  cases built : Expr.ofPostorder limit ts with
  | error error => exact ⟨error, rfl⟩
  | ok e =>
    obtain ⟨lists, -⟩ := Expr.ofPostorder_eq_ok_iff.mp built
    exact absurd (balanced_iff_exists_postorder.mpr ⟨e, lists⟩) unbalanced

/-- Two and three with a minus after them are built into two minus three, not three minus two; without the three they
are refused. -/
theorem ofPostorder_ok_iff_of_difference :
    let two := Decimal.round .plus ⟨2, 0⟩
    let three := Decimal.round .plus ⟨3, 0⟩
    Expr.ofPostorder 2 [.number two, .number three, .op .sub] = .ok (.binary .sub (.number two) (.number three)) ∧
      ¬ Balanced [.number two, .op .sub] ∧ ∃ error, Expr.ofPostorder 2 [.number two, .op .sub] = .error error := by
  intro two three
  have unbalanced : ¬ Balanced [.number two, .op .sub] := fun b => absurd b.single (by decide)
  obtain ⟨inverts, -, refuses, -⟩ := ofPostorder_ok_iff
  exact ⟨(inverts 2 _ (.binary .sub (.number two) (.number three))).mpr ⟨rfl, by decide⟩, unbalanced,
    refuses 2 _ unbalanced⟩

end Calculator
