import ContractML.Proofs.Acceptance

/-!
# Operators are grouped by precedence

A formula is a row of operands with operators between them. It is read as one expression, whose
operators and operands, read from left to right, are those of the formula. Every operator stands
where the precedence table puts it: the operators of its two operands bind tighter than it does, or
they are on its own level and on the side on which that level is grouped.

The parser knows the table by pairs of powers only. It compares each operator with the least level
that it may read. The invariant of its loop
is that what has been read so far may stand to the left of the next operator, and that the operators
of what has been read are not below the level.

## Main definitions

* `Grouping`, `precedenceTable`, `Operator.rank`, `Operator.side` — the table.
* `rowPowers` — the powers that encode its rows.
* `Operand`, `Formula` — operands with operators between them.
* `Expr.reading` — the operands and operators of an expression from left to right.
* `Expr.Grouped` — an operator stands where the table puts it.

## Main results

* `Operator.powers_eq_rowPowers`, `rowPowers_encode` — the powers of the parser encode the table.
* `Formula.accepts_operators` — the loop over the operators of a formula.
* `Formula.parse_grouped` — **formulas are grouped by the precedence table**.
-/

namespace ContractML

/-! ### The precedence table -/

/-- The side on which operators of one level are grouped. -/
inductive Grouping where
  /-- The first of several operators is applied first. -/
  | left
  /-- The last of several operators is applied first. -/
  | right
  deriving DecidableEq

/-- The operators of each level from the loosest to the tightest, and the side on which they are
grouped. -/
def precedenceTable : List (Grouping × List Operator) :=
  [(.right, [.logical .or]),
   (.right, [.logical .and]),
   (.left, [.binary .eq, .binary .ne, .binary .same, .binary .differs, .binary .lt, .binary .le,
     .binary .gt, .binary .ge]),
   (.right, [.binary .concat]),
   (.left, [.binary .add, .binary .sub, .binary .fadd, .binary .fsub]),
   (.left, [.binary .mul, .binary .div, .binary .mod, .binary .fmul, .binary .fdiv]),
   (.right, [.binary .pow])]

namespace Operator

/-- The row of an operator in the table. -/
def rank (o : Operator) : Nat := precedenceTable.findIdx fun row => row.2.contains o

/-- The side on which the operators in the row of an operator are grouped. -/
def side (o : Operator) : Grouping := (precedenceTable[o.rank]?.map Prod.fst).getD .left

end Operator

/-- The powers of the operators in a row of the table. -/
def rowPowers (row : Nat) : Nat × Nat :=
  [(1, 1), (3, 3), (5, 6), (7, 7), (10, 11), (20, 21), (30, 30)][row]?.getD (0, 0)

/-- The powers encode the table. The left power of one row is below the right power of another one
exactly if the first row is looser, or they are one row grouped on the left; and the right power of
one row does not exceed the left power of another one exactly if the first row is looser, or they
are one row grouped on the right. -/
theorem rowPowers_encode : ∀ i j : Fin precedenceTable.length,
    ((rowPowers i).1 < (rowPowers j).2 ↔ i < j ∨ (j = i ∧ precedenceTable[i].1 = .left)) ∧
      ((rowPowers i).2 ≤ (rowPowers j).1 ↔ i < j ∨ (j = i ∧ precedenceTable[i].1 = .right)) := by
  decide

namespace Operator

/-- Every operator is in the table. -/
theorem rank_lt (o : Operator) : o.rank < precedenceTable.length := by
  rcases o with op | op <;> cases op <;> decide

theorem side_eq (o : Operator) : o.side = (precedenceTable.get ⟨o.rank, o.rank_lt⟩).1 := by
  rw [side, List.getElem?_eq_getElem o.rank_lt]
  rfl

/-- The parser goes by the powers of the row. -/
theorem powers_eq_rowPowers (o : Operator) : o.powers = rowPowers o.rank := by
  rcases o with op | op <;> cases op <;> rfl

/-- An operator that is below the right operand of `p` may have `p` in its left operand. -/
theorem left_of_lt_rightLevel {o p : Operator} (h : o.level < p.rightLevel) :
    o.rank < p.rank ∨ (p.rank = o.rank ∧ o.side = .left) := by
  rw [level, rightLevel, powers_eq_rowPowers, powers_eq_rowPowers] at h
  have hrow := (rowPowers_encode ⟨o.rank, o.rank_lt⟩ ⟨p.rank, p.rank_lt⟩).1.mp h
  rw [side_eq]
  simpa [Fin.lt_def, Fin.ext_iff] using hrow

/-- An operator may have `p` in its right operand if `p` is not below its right level. -/
theorem right_of_rightLevel_le {o p : Operator} (h : o.rightLevel ≤ p.level) :
    o.rank < p.rank ∨ (p.rank = o.rank ∧ o.side = .right) := by
  rw [level, rightLevel, powers_eq_rowPowers, powers_eq_rowPowers] at h
  have hrow := (rowPowers_encode ⟨o.rank, o.rank_lt⟩ ⟨p.rank, p.rank_lt⟩).2.mp h
  rw [side_eq]
  simpa [Fin.lt_def, Fin.ext_iff] using hrow

end Operator

/-! ### Formulas -/

/-- A name: a word that is not reserved. -/
abbrev Name := { x : String // isName x = true }

/-- The variable of a name. -/
def Name.var (x : Name) : Expr := .var ⟨x.1, .nowhere⟩

/-- How an operator before its operand is written. -/
def UnaryOp.word : UnaryOp → String
  | neg => "-"
  | not => "not"

/-- An operand of a formula: a name and the names it is applied to, with operators before them. -/
structure Operand where
  signs : List UnaryOp
  callee : Name
  args : List Name

namespace Operand

/-- The words of an operand. -/
def words (x : Operand) : List String :=
  x.signs.map UnaryOp.word ++ x.callee.1 :: x.args.map Subtype.val

/-- The expression of an operand: its operators around a variable, or around one call that has all
the other names as its arguments. -/
def tree (x : Operand) : Expr :=
  let core := match x.args with
    | [] => x.callee.var
    | args => .call x.callee.var (args.map Name.var) .nowhere
  x.signs.foldr (fun op e => .unary op e .nowhere) core

end Operand

/-- A formula: an operand, and further operands with an operator before each. -/
structure Formula where
  first : Operand
  rest : List (Operator × Operand)

namespace Formula

/-- The words of a formula. -/
def words (c : Formula) : List String :=
  c.first.words ++ c.rest.flatMap fun x => x.1.symbol :: x.2.words

/-- The operands and operators of a formula. -/
def reading (c : Formula) : Expr × List (Operator × Expr) :=
  (c.first.tree, c.rest.map (Prod.map id Operand.tree))

end Formula

/-- A text that consists of the words, with at least one space between two of them. -/
inductive Spaced : List Char → List String → Prop
  | nil : Spaced [] []
  | space {cs : List Char} {ws : List String} (rest : Spaced cs ws) : Spaced (' ' :: cs) ws
  | word {cs : List Char} {ws : List String} (w : String) (next : ∀ c ∈ cs.head?, c = ' ')
      (rest : Spaced cs ws) : Spaced (w.toList ++ cs) (w :: ws)

/-- Words with a space after each are spaced. -/
theorem Spaced.flatMap (ws : List String) : Spaced (ws.flatMap fun w => w.toList ++ [' ']) ws := by
  induction ws with
  | nil => exact .nil
  | cons w ws ih =>
    rw [List.flatMap_cons, List.append_assoc]
    exact .word w (by simp) (.space ih)

/-! ### Operators of an expression -/

namespace Expr

/-- The operator of an expression between its two operands, and the operands. -/
def operation? : Expr → Option (Operator × Expr × Expr)
  | .binary op l r _ => some (.binary op, l, r)
  | .logical op l r _ => some (.logical op, l, r)
  | _ => none

/-- The operator of an expression between its two operands. -/
def operator? (e : Expr) : Option Operator := e.operation?.map Prod.fst

/-- The operands and operators of an expression from left to right. -/
def reading : Expr → Expr × List (Operator × Expr)
  | .binary op l r _ =>
    (l.reading.1, l.reading.2 ++ (.binary op, r.reading.1) :: r.reading.2)
  | .logical op l r _ =>
    (l.reading.1, l.reading.2 ++ (.logical op, r.reading.1) :: r.reading.2)
  | e => (e, [])

/-- The operators of the two operands bind tighter than the operator between them, or they are on
its level and on the side on which that level is grouped. -/
def Grouped (e : Expr) : Prop :=
  ∀ o l r, e.operation? = some (o, l, r) →
    (∀ p ∈ l.operator?, o.rank < p.rank ∨ (p.rank = o.rank ∧ o.side = .left)) ∧
    (∀ p ∈ r.operator?, o.rank < p.rank ∨ (p.rank = o.rank ∧ o.side = .right))

/-- An expression without an operator between operands has nothing to group. -/
theorem grouped_of_operation? {e : Expr} (h : e.operation? = none) : e.Grouped := by
  intro o l r hop
  rw [h] at hop
  cases hop

end Expr

/-! ### Words -/

/-- Words with spaces between them are read one by one. -/
theorem Spaced.spells {cs : List Char} {ws : List String} (h : Spaced cs ws)
    {ks : List TokenKind} (hks : List.Forall₂ TokenKind.WrittenAs ks ws) : Spells cs ks := by
  induction h generalizing ks with
  | nil =>
    cases hks
    exact Spells.nil
  | space _ ih => exact (ih hks).space
  | word w next _ ih =>
    cases hks with
    | cons hk hks => exact hk _ _ next (ih hks)

theorem UnaryOp.writtenAs (op : UnaryOp) : op.kind.WrittenAs op.word := by
  cases op with
  | neg => exact Symbol.minus.writtenAs
  | not => exact Keyword.kwNot.writtenAs

/-! ### Operands -/

namespace Operand

open Parse

/-- The tokens of an operand. -/
def kinds (x : Operand) : List TokenKind :=
  x.signs.map UnaryOp.kind ++ .ident x.callee.1 :: x.args.map (.ident ·.1)

theorem writtenAs (x : Operand) : List.Forall₂ TokenKind.WrittenAs x.kinds x.words := by
  refine List.rel_append ?_ (.cons (writtenAs_of_isName x.callee.2) ?_)
  · rw [List.forall₂_map_left_iff, List.forall₂_map_right_iff, List.forall₂_same]
    exact fun op _ => op.writtenAs
  · rw [List.forall₂_map_left_iff, List.forall₂_map_right_iff, List.forall₂_same]
    exact fun y _ => writtenAs_of_isName y.2

theorem accepts_arguments (args : List Name) {ms : List TokenKind}
    (hms : ∀ k ∈ ms.head?, k.startsAtom = false) (acc : List Expr) :
    Accepts (arguments · acc) (args.map (.ident ·.1) ++ ms) (acc.reverse ++ args.map Name.var)
      ms := by
  induction args generalizing acc with
  | nil =>
    rw [List.map_nil, List.nil_append, List.map_nil, List.append_nil]
    exact Accepts.arguments_nil acc hms
  | cons y args ih =>
    have hrest := ih (y.var :: acc)
    rw [List.reverse_cons, List.append_assoc] at hrest
    exact Accepts.arguments_cons rfl (Accepts.name y.1 _) hrest

/-- An operand is read up to a token that begins no atom: no operator is read inside it. -/
theorem accepts (x : Operand) {ms : List TokenKind} (hms : ∀ k ∈ ms.head?, k.startsAtom = false) :
    Accepts operand (x.kinds ++ ms) x.tree ms := by
  obtain ⟨signs, callee, args⟩ := x
  induction signs with
  | nil =>
    refine Accepts.operand_application rfl ?_
    have hcallee := Accepts.name callee.1 (args.map (.ident ·.1) ++ ms)
    cases args with
    | nil => exact hcallee.application_one hms
    | cons y args =>
      exact hcallee.application_call rfl (accepts_arguments (y :: args) hms []) (by simp)
  | cons op signs ih =>
    refine Accepts.operand_unary (ih.expression (Accepts.operators_stop ?_))
    exact fun o _ => o.level_lt_unaryLevel

theorem operation?_tree (x : Operand) : x.tree.operation? = none := by
  obtain ⟨signs, callee, args⟩ := x
  cases signs with
  | nil => cases args <;> rfl
  | cons op signs => rfl

theorem reading_tree (x : Operand) : x.tree.reading = (x.tree, []) := by
  obtain ⟨signs, callee, args⟩ := x
  cases signs with
  | nil => cases args <;> rfl
  | cons op signs => rfl

/-- An operand has no operators between operands. -/
theorem grouped_tree (x : Operand) : x.tree.All Expr.Grouped := by
  have hvar : ∀ y : Name, y.var.All Expr.Grouped := by
    intro y
    exact Expr.all_var.mpr (Expr.grouped_of_operation? rfl)
  obtain ⟨signs, callee, args⟩ := x
  induction signs with
  | nil =>
    cases args with
    | nil => exact hvar callee
    | cons y args =>
      refine Expr.all_call.mpr ⟨Expr.grouped_of_operation? rfl, hvar callee, ?_⟩
      intro e he
      obtain ⟨z, -, rfl⟩ := List.mem_map.mp he
      exact hvar z
  | cons op signs ih => exact Expr.all_unary.mpr ⟨Expr.grouped_of_operation? rfl, ih⟩

end Operand

/-! ### The loop over the operators -/

/-- The expression has the operands and operators `x` and `xs`, grouped by the table, and its
operator is not below the level. -/
structure Expr.Groups (e : Expr) (level : Nat) (x : Expr) (xs : List (Operator × Expr)) : Prop where
  reading : e.reading = (x, xs)
  grouped : e.All Expr.Grouped
  level : ∀ o ∈ e.operator?, level ≤ o.level

theorem Operator.operation?_apply (o : Operator) (l r : Expr) :
    (o.apply l r).operation? = some (o, l, r) := by
  cases o <;> rfl

theorem Operator.operator?_apply (o : Operator) (l r : Expr) :
    (o.apply l r).operator? = some o := by
  rw [Expr.operator?, o.operation?_apply, Option.map_some]

theorem Operator.reading_apply (o : Operator) (l r : Expr) :
    (o.apply l r).reading = (l.reading.1, l.reading.2 ++ (o, r.reading.1) :: r.reading.2) := by
  cases o <;> rfl

theorem Operator.all_apply {P : Expr → Prop} (o : Operator) (l r : Expr) :
    (o.apply l r).All P ↔ P (o.apply l r) ∧ l.All P ∧ r.All P := by
  cases o with
  | binary op => exact Expr.all_binary
  | logical op => exact Expr.all_logical

/-- One turn of the loop: the operator joins what has been read to its right operand. -/
theorem Expr.Groups.apply {level level' : Nat} {x y left right : Expr}
    {xs ys : List (Operator × Expr)} {o : Operator} (hleft : left.Groups level x xs)
    (hright : right.Groups o.rightLevel y ys)
    (hnext : ∀ p ∈ left.operator?, o.level < p.rightLevel) (hlevel : level' ≤ o.level) :
    (o.apply left right).Groups level' x (xs ++ (o, y) :: ys) where
  reading := by rw [o.reading_apply, hleft.reading, hright.reading]
  grouped := by
    refine (o.all_apply left right).mpr ⟨?_, hleft.grouped, hright.grouped⟩
    intro o' l r hop
    rw [o.operation?_apply] at hop
    cases hop
    constructor
    · intro p hp
      exact Operator.left_of_lt_rightLevel (hnext p hp)
    · intro p hp
      exact Operator.right_of_rightLevel_le (hright.level p hp)
  level := by
    intro o' ho'
    rw [o.operator?_apply] at ho'
    cases ho'
    exact hlevel

theorem Operand.groups_tree (x : Operand) (level : Nat) : x.tree.Groups level x.tree [] where
  reading := x.reading_tree
  grouped := x.grouped_tree
  level := by
    intro o ho
    rw [Expr.operator?, x.operation?_tree] at ho
    cases ho

namespace Formula

open Parse

/-- The tokens of operators and the operands after them. -/
def kinds (rest : List (Operator × Operand)) : List TokenKind :=
  rest.flatMap fun x => x.1.kind :: x.2.kinds

theorem kinds_cons (o : Operator) (y : Operand) (rest : List (Operator × Operand)) :
    kinds ((o, y) :: rest) = o.kind :: (y.kinds ++ kinds rest) := rfl

/-- What follows an operand begins with an operator. -/
theorem startsAtom_kinds (rest : List (Operator × Operand)) :
    ∀ k ∈ (kinds rest).head?, k.startsAtom = false := by
  cases rest with
  | nil => simp [kinds]
  | cons x rest =>
    rintro k ⟨⟩
    exact x.1.startsAtom_kind

/-- **The loop over the operators of a formula.** Let `left` be grouped with operators not below the
level, and let the next operator be one that may stand to its right. Then the parser takes operators
until one is below the level, and what it gives is grouped. -/
theorem accepts_operators {level : Nat} {x left : Expr} {xs : List (Operator × Expr)}
    (rest : List (Operator × Operand)) (hleft : left.Groups level x xs)
    (hnext : ∀ y ∈ rest.head?, ∀ p ∈ left.operator?, y.1.level < p.rightLevel) :
    ∃ taken later e, rest = taken ++ later ∧
      e.Groups level x (xs ++ taken.map (Prod.map id Operand.tree)) ∧
      (∀ y ∈ later.head?, y.1.level < level) ∧
      Accepts (operators · left level) (kinds rest) e (kinds later) := by
  -- both the right operand and what follows it have fewer operators
  induction hn : rest.length using Nat.strongRecOn generalizing rest level x left xs with
  | ind n ih =>
    have hstop : (∀ y ∈ rest.head?, y.1.level < level) →
        ∃ taken later e, rest = taken ++ later ∧
          e.Groups level x (xs ++ taken.map (Prod.map id Operand.tree)) ∧
          (∀ y ∈ later.head?, y.1.level < level) ∧
          Accepts (operators · left level) (kinds rest) e (kinds later) := by
      intro hlevel
      refine ⟨[], rest, left, rfl, by simpa using hleft, hlevel, Accepts.operators_stop ?_⟩
      cases rest with
      | nil => simp [kinds]
      | cons y rest =>
        intro o ho
        rw [kinds_cons, List.head?_cons, Option.bind_some, Operator.ofKind?_kind] at ho
        cases ho
        exact hlevel y rfl
    cases rest with
    | nil => exact hstop (by simp)
    | cons y rest =>
      obtain ⟨o, y⟩ := y
      rw [List.length_cons] at hn
      rcases Nat.lt_or_ge o.level level with hlt | hge
      · exact hstop (by rintro _ ⟨⟩; exact hlt)
      · -- the right operand
        have hfirst : ∀ z ∈ rest.head?, ∀ p ∈ y.tree.operator?, z.1.level < p.rightLevel := by
          intro z _ p hp
          rw [Expr.operator?, y.operation?_tree] at hp
          cases hp
        obtain ⟨ys, later, right, rfl, hright, hlater, hread⟩ :=
          ih rest.length (by omega) rest (y.groups_tree o.rightLevel) hfirst rfl
        rw [List.length_append] at hn
        -- what follows it
        have hafter : ∀ z ∈ later.head?, ∀ p ∈ (o.apply left right).operator?,
            z.1.level < p.rightLevel := by
          intro z hz p hp
          rw [o.operator?_apply] at hp
          cases hp
          exact hlater z hz
        obtain ⟨zs, last, e, rfl, he, hlast, hloop⟩ :=
          ih later.length (by omega) later (hleft.apply hright (hnext _ rfl) hge) hafter rfl
        refine ⟨(o, y) :: ys ++ zs, last, e, by simp, ?_, hlast, ?_⟩
        · simpa using he
        · have hexpr := (y.accepts (startsAtom_kinds _)).expression hread
          exact Accepts.operators_step o.ofKind?_kind hge hexpr hloop

theorem writtenAs (c : Formula) :
    List.Forall₂ TokenKind.WrittenAs (c.first.kinds ++ kinds c.rest) c.words := by
  refine List.rel_append c.first.writtenAs ?_
  induction c.rest with
  | nil => exact .nil
  | cons x rest ih => exact .cons x.1.writtenAs (List.rel_append x.2.writtenAs ih)

/-- A formula is read as a whole. -/
theorem accepts (c : Formula) :
    ∃ e, e.Groups 0 c.first.tree (c.rest.map (Prod.map id Operand.tree)) ∧
      Accepts bareStatement (c.first.kinds ++ kinds c.rest) (.expr e) [] := by
  have hfirst : ∀ y ∈ c.rest.head?, ∀ p ∈ c.first.tree.operator?, y.1.level < p.rightLevel := by
    intro y _ p hp
    rw [Expr.operator?, c.first.operation?_tree] at hp
    cases hp
  obtain ⟨taken, later, e, hrest, he, hlater, hloop⟩ :=
    accepts_operators c.rest (c.first.groups_tree 0) hfirst
  -- no operator is below level zero, so the loop has taken all of them
  have hnil : later = [] := by
    cases later with
    | nil => rfl
    | cons y later => exact absurd (hlater y rfl) (Nat.not_lt_zero _)
  rw [hnil, List.append_nil] at hrest
  rw [hnil] at hloop
  refine ⟨e, by rw [hrest]; exact he, ?_⟩
  have hexpr := (c.first.accepts (startsAtom_kinds c.rest)).expression hloop
  have hhead : ∀ k ∈ (c.first.kinds ++ kinds c.rest).head?,
      k ≠ .keyword .kwLet ∧ k ≠ .keyword .kwContract := by
    obtain ⟨⟨signs, callee, args⟩, rest⟩ := c
    cases signs with
    | nil => simp [Operand.kinds]
    | cons op signs => cases op <;> simp [Operand.kinds, UnaryOp.kind]
  refine Accepts.statement_sequence ?_ ?_ (hexpr.sequence_one (by simp [kinds]))
  · exact fun h => (hhead _ h).1 rfl
  · exact fun h => (hhead _ h).2 rfl

/-- **Formulas are grouped by the precedence table.** Let a text consist of the words of a formula
with spaces between them. It is read as one statement, which is an expression. Up to positions, its
operands and operators from left to right are those of the formula, where an operand is its
operators around a variable or around one call. At every operator between two operands, the operator
of either operand binds tighter, or it is on the same level and on the side on which that level is
grouped. -/
theorem parse_grouped (c : Formula) {source : String} (h : Spaced source.toList c.words) :
    ∃ p, Program.parse source = .ok p ∧ ∃ e span, p.body = [.expr e span] ∧
      e.bare.reading = c.reading ∧ e.bare.All Expr.Grouped := by
  obtain ⟨t, ht, haccepts⟩ := c.accepts
  have hne : c.first.kinds ++ kinds c.rest ≠ [] := by simp [Operand.kinds]
  obtain ⟨p, hp, e, span, hbody, he⟩ :=
    Program.parse_of_accepts (h.spells c.writtenAs) hne haccepts
  refine ⟨p, hp, e, span, hbody, ?_, ?_⟩
  · rw [he, ht.reading]
    rfl
  · rw [he]
    exact ht.grouped

/-- Signs before a call, two operators that are grouped to the right, and a looser one that is
grouped to the left. -/
theorem parse_grouped_mixed :
    let f : Name := ⟨"f", by decide⟩
    let x : Name := ⟨"x", by decide⟩
    let c : Formula := ⟨⟨[.neg, .not], f, [x, x]⟩, [(.binary .pow, ⟨[], x, []⟩),
      (.binary .pow, ⟨[.neg], x, []⟩), (.binary .sub, ⟨[], f, [x]⟩),
      (.binary .sub, ⟨[], x, []⟩), (.logical .or, ⟨[.not], x, []⟩)]⟩
    let source := "- not f x x ** x ** - x - f x - x || not x "
    Spaced source.toList c.words ∧
      ∃ p, Program.parse source = .ok p ∧ ∃ e span, p.body = [.expr e span] ∧
        e.bare.reading = c.reading ∧ e.bare.All Expr.Grouped := by
  intro f x c source
  have htext : source.toList = c.words.flatMap fun w => w.toList ++ [' '] := by decide
  have hspaced : Spaced source.toList c.words := htext ▸ Spaced.flatMap c.words
  exact ⟨hspaced, parse_grouped c hspaced⟩

end Formula

end ContractML
