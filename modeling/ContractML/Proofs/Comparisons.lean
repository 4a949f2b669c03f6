import ContractML.Proofs.Operators
import Mathlib.Tactic.SplitIfs

/-!
# Comparisons

Eight operators compare two values. Six of them ask for the order of the values, and two for their
identity. On the values of one primitive type, floating point numbers apart, the eight are eight
views of one linear order: each of them is true of some of the outcomes less, equal and greater.
Equality and identity are the same there. Values of different types are refused by all eight in the
same way, and closures by the six that need an order.

Texts are ordered by the code points of their characters, one after the other. This is also the
order of the bytes by which they are encoded: a greater code point has a greater first byte, or the
same first bytes and then a greater one.

## Main definitions

* `BinaryOp.structural`, `BinaryOp.comparisons` — the six operators, and all eight.
* `BinaryOp.admits` — the outcomes of which a comparison is true.
* `BinaryOp.Holds` — a comparison is true of two values.
* `Value.OrderedBy` — values that are compared by a given order.
* `Value.Consistent` — the laws of the eight operators on three values.

## Main results

* `compareText_eq_lt_iff`, `compareText_eq_lt_iff_bytes` — **the order of texts is that of their
  code points, and that of their bytes**.
* `Value.OrderedBy.eval_comparison` — each operator is true of some outcomes of the order.
* `BinaryOp.comparisons_consistent` — **the eight operators agree in answers and in faults**.
-/

namespace ContractML

/-! ### The order of texts -/

instance : Std.TransCmp compareChar :=
  inferInstanceAs (Std.TransCmp (compareOn Char.toNat))

instance : Std.LawfulEqCmp compareChar where
  compare_self := Nat.compare_eq_eq.mpr rfl
  eq_of_compare h := Char.toNat_inj.mp (Std.LawfulEqOrd.eq_of_compare h)

theorem compareText_eq_compareLex : compareText = List.compareLex compareChar := by
  funext cs ds
  fun_induction compareText cs ds with
  | case1 => rfl
  | case2 d ds => rfl
  | case3 c cs => rfl
  | case4 c cs d ds ih => rw [ih, List.compareLex_cons_cons]

instance : Std.TransCmp compareText :=
  compareText_eq_compareLex ▸ inferInstanceAs (Std.TransCmp (List.compareLex compareChar))

instance : Std.LawfulEqCmp compareText :=
  compareText_eq_compareLex ▸ inferInstanceAs (Std.LawfulEqCmp (List.compareLex compareChar))

theorem compareChar_eq_lt_iff {c d : Char} : compareChar c d = .lt ↔ c.toNat < d.toNat :=
  Nat.compare_eq_lt

/-- Texts are ordered by the code points of their characters, one after the other. -/
theorem compareText_eq_lt_iff (cs ds : List Char) :
    compareText cs ds = .lt ↔ cs.map Char.toNat < ds.map Char.toNat := by
  fun_induction compareText cs ds with
  | case1 => simp
  | case2 d ds => simp
  | case3 c cs => simp
  | case4 c cs d ds ih =>
    rw [Ordering.then_eq_lt, compareChar_eq_lt_iff, Std.LawfulEqCmp.compare_eq_iff_eq, ih,
      List.map_cons, List.map_cons, List.cons_lt_cons_iff, Char.toNat_inj]

/-! ### The order of bytes -/

/-- The bytes of a text. -/
def Text.encode (cs : List Char) : List UInt8 := cs.flatMap String.utf8EncodeChar

theorem Text.toList_toUTF8 (s : String) : s.toUTF8.data.toList = Text.encode s.toList := by
  obtain ⟨cs, rfl⟩ : ∃ cs, s = String.ofList cs := ⟨s.toList, String.ofList_toList.symm⟩
  rw [String.toList_ofList, String.toUTF8_eq_toByteArray, String.toByteArray_ofList]
  exact List.toList_data_toByteArray

/-- Of two code points the smaller one has the smaller bytes, whatever follows them: the bytes
differ, and the first difference goes the same way. -/
theorem utf8EncodeChar_lt {c d : Char} (h : c.toNat < d.toNat) (us vs : List UInt8) :
    String.utf8EncodeChar c ++ us < String.utf8EncodeChar d ++ vs := by
  have hlimit : d.toNat < 0x110000 := by
    rcases d.valid with hlow | ⟨-, hhigh⟩
    · exact Nat.lt_trans hlow (by decide)
    · exact hhigh
  -- Six bits go into a byte, so a code point is read as a number in base 64.
  have hdigits : ∀ n : Nat, n / 4096 = n / 64 / 64 ∧ n / 262144 = n / 64 / 64 / 64 := by omega
  unfold String.utf8EncodeChar
  unfold Char.toNat at h hlimit
  generalize c.val.toNat = m at *
  generalize d.val.toNat = n at *
  simp only [hdigits]
  split_ifs
  all_goals
    simp only [List.cons_append, List.cons_lt_cons_iff, UInt8.lt_iff_toNat_lt, ← UInt8.toNat_inj,
      UInt8.toNat_ofNat']
    omega

theorem Text.encode_lt {cs ds : List Char} (h : compareText cs ds = .lt) :
    Text.encode cs < Text.encode ds := by
  fun_induction compareText cs ds with
  | case1 => cases h
  | case2 d ds =>
    -- A character has at least one byte.
    have hne : Text.encode (d :: ds) ≠ [] := by
      have hsize := String.length_utf8EncodeChar d
      have hpos := d.utf8Size_pos
      intro hnil
      rw [encode, List.flatMap_cons, List.append_eq_nil_iff] at hnil
      rw [hnil.1, List.length_nil] at hsize
      omega
    obtain ⟨b, bs, hbytes⟩ := List.exists_cons_of_ne_nil hne
    rw [hbytes]
    exact List.nil_lt_cons b bs
  | case3 c cs => cases h
  | case4 c cs d ds ih =>
    rw [Ordering.then_eq_lt, compareChar_eq_lt_iff, Std.LawfulEqCmp.compare_eq_iff_eq] at h
    rw [encode, encode, List.flatMap_cons, List.flatMap_cons]
    rcases h with h | ⟨rfl, h⟩
    · exact utf8EncodeChar_lt h _ _
    · exact List.append_left_lt (ih h)

/-- Texts are ordered as their bytes are. -/
theorem compareText_eq_lt_iff_bytes (cs ds : List Char) :
    compareText cs ds = .lt ↔ Text.encode cs < Text.encode ds := by
  refine ⟨Text.encode_lt, fun h => ?_⟩
  cases ho : compareText cs ds with
  | lt => rfl
  | eq =>
    -- The order on texts is total, so it is enough that no other outcome fits the bytes.
    obtain rfl := Std.LawfulEqCmp.eq_of_compare ho
    exact absurd h (List.lt_irrefl _)
  | gt => exact absurd h (List.lt_asymm (Text.encode_lt (Std.OrientedCmp.lt_of_gt ho)))

/-! ### Eight views of one order -/

namespace BinaryOp

/-- The operators that ask for the order of two values. -/
def structural : List BinaryOp := [lt, le, gt, ge, eq, ne]

/-- The operators that compare two values. -/
def comparisons : List BinaryOp := structural ++ [same, differs]

/-- The outcomes of which a comparison is true. -/
def admits : BinaryOp → Ordering → Bool
  | lt => Ordering.isLT
  | le => Ordering.isLE
  | gt => Ordering.isGT
  | ge => Ordering.isGE
  | eq | same => Ordering.isEq
  | ne | differs => Ordering.isNe
  | _ => fun _ => false

/-- The comparison is true of the values. -/
def Holds (op : BinaryOp) (l r : Value) (span : Span) : Prop := op.eval l r span = .ok (.bool true)

end BinaryOp

/-- The laws of the comparisons on three values: each of them has an answer, and the answers are
those of one linear order. -/
structure Value.Consistent (l r t : Value) (span : Span) : Prop where
  answered : ∀ op ∈ BinaryOp.comparisons, ∃ b, op.eval l r span = .ok (.bool b)
  exactly_one :
    (BinaryOp.lt.Holds l r span ∧ ¬BinaryOp.eq.Holds l r span ∧ ¬BinaryOp.gt.Holds l r span) ∨
    (¬BinaryOp.lt.Holds l r span ∧ BinaryOp.eq.Holds l r span ∧ ¬BinaryOp.gt.Holds l r span) ∨
    (¬BinaryOp.lt.Holds l r span ∧ ¬BinaryOp.eq.Holds l r span ∧ BinaryOp.gt.Holds l r span)
  le_iff : BinaryOp.le.Holds l r span ↔ BinaryOp.lt.Holds l r span ∨ BinaryOp.eq.Holds l r span
  ge_iff : BinaryOp.ge.Holds l r span ↔ BinaryOp.gt.Holds l r span ∨ BinaryOp.eq.Holds l r span
  ne_iff : BinaryOp.ne.Holds l r span ↔ ¬BinaryOp.eq.Holds l r span
  same_iff : BinaryOp.same.Holds l r span ↔ BinaryOp.eq.Holds l r span
  differs_iff : BinaryOp.differs.Holds l r span ↔ BinaryOp.ne.Holds l r span
  lt_iff_gt : BinaryOp.lt.Holds l r span ↔ BinaryOp.gt.Holds r l span
  lt_trans : BinaryOp.lt.Holds l r span → BinaryOp.lt.Holds r t span → BinaryOp.lt.Holds l t span
  eq_iff : BinaryOp.eq.Holds l r span ↔ l = r

/-- The values made by `mk` are compared by the order `cmp`. -/
structure Value.OrderedBy {α : Type} [DecidableEq α] (mk : α → Value) (cmp : α → α → Ordering) :
    Prop where
  compare_eq : ∀ a b span, (mk a).compare (mk b) span = .ok (some (cmp a b))
  same_eq : ∀ a b span, (mk a).same (mk b) span = .ok (decide (a = b))
  injective : Function.Injective mk

namespace Value

theorem orderedBy_int : OrderedBy int Ord.compare where
  compare_eq _ _ _ := rfl
  same_eq _ _ _ := rfl
  injective _ _ h := int.inj h

theorem orderedBy_bool : OrderedBy bool Ord.compare where
  compare_eq _ _ _ := rfl
  same_eq _ _ _ := rfl
  injective _ _ h := bool.inj h

theorem orderedBy_char : OrderedBy char compareChar where
  compare_eq _ _ _ := rfl
  same_eq _ _ _ := rfl
  injective _ _ h := char.inj h

/-- Strings are compared by their characters. -/
theorem orderedBy_str : OrderedBy (fun cs => str (String.ofList cs)) compareText where
  compare_eq cs ds span := by rw [Value.compare, String.toList_ofList, String.toList_ofList]
  same_eq cs ds span := by
    have hinj : String.ofList cs = String.ofList ds ↔ cs = ds := String.ofList_inj
    rw [Value.same, ← decide_eq_decide.mpr hinj]
    rfl
  injective _ _ h := String.ofList_inj.mp (str.inj h)

namespace OrderedBy

variable {α : Type} [DecidableEq α] {mk : α → Value} {cmp : α → α → Ordering}
  [Std.LawfulEqCmp cmp]

/-- Each comparison is true of some outcomes of the order. -/
theorem eval_comparison (h : OrderedBy mk cmp) {op : BinaryOp} (hop : op ∈ BinaryOp.comparisons)
    (a b : α) (span : Span) : op.eval (mk a) (mk b) span = .ok (.bool (op.admits (cmp a b))) := by
  have hsame : decide (a = b) = (cmp a b).isEq := by
    rw [Bool.eq_iff_iff, decide_eq_true_iff, Ordering.isEq_iff_eq_eq,
      Std.LawfulEqCmp.compare_eq_iff_eq]
  have horder := h.compare_eq a b span
  have hidentity := h.same_eq a b span
  rw [hsame] at hidentity
  cases op with
  | lt | le | gt | ge | eq | ne =>
    rw [BinaryOp.eval, onOrder, horder]
    cases cmp a b <;> rfl
  | same | differs =>
    rw [BinaryOp.eval, hidentity]
    cases cmp a b <;> rfl
  | _ => exact absurd hop (by decide)

theorem holds_iff (h : OrderedBy mk cmp) (op : BinaryOp) (hop : op ∈ BinaryOp.comparisons)
    (a b : α) (span : Span) : op.Holds (mk a) (mk b) span ↔ op.admits (cmp a b) = true := by
  rw [BinaryOp.Holds, h.eval_comparison hop]
  simp

/-- The comparisons of values that are ordered obey the laws of a linear order. -/
theorem consistent [Std.TransCmp cmp] (h : OrderedBy mk cmp) (a b c : α) (span : Span) :
    Consistent (mk a) (mk b) (mk c) span := by
  have hlt := fun a b => h.holds_iff .lt (by decide) a b span
  have hle := h.holds_iff .le (by decide) a b span
  have hgt := fun a b => h.holds_iff .gt (by decide) a b span
  have hge := h.holds_iff .ge (by decide) a b span
  have heq := h.holds_iff .eq (by decide) a b span
  have hne := h.holds_iff .ne (by decide) a b span
  have hsame := h.holds_iff .same (by decide) a b span
  have hdiffers := h.holds_iff .differs (by decide) a b span
  -- The first seven laws compare what the operators admit of one outcome; the last three are those
  -- of the order itself.
  refine ⟨?_, ?_, ?_, ?_, ?_, ?_, ?_, ?_, ?_, ?_⟩
  · exact fun op hop => ⟨_, h.eval_comparison hop a b span⟩
  · rw [hlt, heq, hgt]
    cases cmp a b <;> decide
  · rw [hle, hlt, heq]
    cases cmp a b <;> decide
  · rw [hge, hgt, heq]
    cases cmp a b <;> decide
  · rw [hne, heq]
    cases cmp a b <;> decide
  · rw [hsame, heq]
    rfl
  · rw [hdiffers, hne]
    rfl
  · rw [hlt, hgt]
    exact Ordering.isLT_iff_eq_lt.trans (Std.OrientedCmp.gt_iff_lt.symm.trans
      Ordering.isGT_iff_eq_gt.symm)
  · rw [hlt, hlt, hlt]
    intro hab hbc
    exact Ordering.isLT_iff_eq_lt.mpr (Std.TransCmp.lt_trans (Ordering.isLT_iff_eq_lt.mp hab)
      (Ordering.isLT_iff_eq_lt.mp hbc))
  · have hcmp : cmp a b = .eq ↔ a = b := Std.LawfulEqCmp.compare_eq_iff_eq
    rw [heq, h.injective.eq_iff, ← hcmp]
    exact Ordering.isEq_iff_eq_eq

end OrderedBy

/-! ### Values of one type, and of different types -/

theorem exists_ofList (s : String) : ∃ cs, s = String.ofList cs :=
  ⟨s.toList, String.ofList_toList.symm⟩

/-- The values of a primitive type, floating point numbers apart, obey the laws. -/
theorem consistent_of_prim? {l r t : Value} {p : PrimTy} (hp : p ≠ .float) (hl : l.prim? = some p)
    (hr : r.prim? = some p) (ht : t.prim? = some p) (span : Span) : Consistent l r t span := by
  cases l <;> cases hl <;> cases r <;> cases hr <;> cases t <;> cases ht
  case int a b c => exact orderedBy_int.consistent a b c span
  case float => exact absurd rfl hp
  case bool a b c => exact orderedBy_bool.consistent a b c span
  case char a b c => exact orderedBy_char.consistent a b c span
  case str a b c =>
    obtain ⟨cs, rfl⟩ := exists_ofList a
    obtain ⟨ds, rfl⟩ := exists_ofList b
    obtain ⟨es, rfl⟩ := exists_ofList c
    exact orderedBy_str.consistent cs ds es span

theorem compare_of_prim?_ne {l r : Value} (h : l.prim? ≠ r.prim?) (span : Span) :
    l.compare r span = .error (.mismatch l.type r.type span) ∧
      l.same r span = .error (.mismatch l.type r.type span) := by
  constructor
  · fun_cases Value.compare l r span with
    | case7 => rfl
    | _ => exact absurd rfl h
  · fun_cases Value.same l r span with
    | case7 => rfl
    | _ => exact absurd rfl h

theorem exists_closure_of_prim? {v : Value} (h : v.prim? = none) : ∃ c, v = .closure c := by
  cases v with
  | closure c => exact ⟨c, rfl⟩
  | _ => cases h

end Value

/-- A comparison fails as the order of the values fails, or their identity. -/
theorem BinaryOp.eval_of_error {l r : Value} {span : Span} {f : Fault}
    (h : l.compare r span = .error f) :
    (∀ op ∈ structural, op.eval l r span = .error f) ∧
      (l.same r span = .error f → ∀ op ∈ comparisons, op.eval l r span = .error f) := by
  -- Six operators look at the order only, the other two at the identity.
  have hstructural : ∀ op ∈ structural, op.eval l r span = .error f := by
    intro op hop
    cases op with
    | lt | le | gt | ge | eq | ne =>
      rw [BinaryOp.eval, onOrder, h]
      rfl
    | _ => exact absurd hop (by decide)
  refine ⟨hstructural, fun hsame op hop => ?_⟩
  rcases List.mem_append.mp hop with hop | hop
  · exact hstructural op hop
  · cases op with
    | same | differs =>
      rw [BinaryOp.eval, hsame]
      rfl
    | _ => exact absurd hop (by decide)

/-- **The comparisons agree in answers and in faults.** On values of one primitive type other than
that of floating point numbers, the eight operators are views of one linear order, in which only a
value itself is equal to it. Strings are ordered by the code points of their characters, which is
the order of their bytes. Values of different types are refused by all eight operators for the same
reason; two closures are refused by those that need an order, and they are either identical or
different. -/
theorem BinaryOp.comparisons_consistent (l r t : Value) (span : Span) :
    (∀ p ≠ PrimTy.float, l.prim? = some p → r.prim? = some p → t.prim? = some p →
      Value.Consistent l r t span) ∧
      (∀ a b : String,
        (lt.Holds (.str a) (.str b) span ↔ a.toList.map Char.toNat < b.toList.map Char.toNat) ∧
          (lt.Holds (.str a) (.str b) span ↔ a.toUTF8.data.toList < b.toUTF8.data.toList)) ∧
      (l.prim? ≠ r.prim? → ∀ op ∈ comparisons,
        op.eval l r span = .error ⟨.typeMismatch l.type r.type, some span⟩) ∧
      (l.prim? = none → r.prim? = none →
        (∀ op ∈ structural, op.eval l r span = .error ⟨.functionalComparison, some span⟩) ∧
          ∃ b, same.eval l r span = .ok (.bool b) ∧ differs.eval l r span = .ok (.bool !b)) := by
  refine ⟨fun p hp hl hr ht => Value.consistent_of_prim? hp hl hr ht span, ?_, ?_, ?_⟩
  · intro a b
    have hholds : lt.Holds (.str a) (.str b) span ↔ compareText a.toList b.toList = .lt := by
      obtain ⟨cs, rfl⟩ := Value.exists_ofList a
      obtain ⟨ds, rfl⟩ := Value.exists_ofList b
      rw [Value.orderedBy_str.holds_iff lt (by decide), String.toList_ofList, String.toList_ofList]
      exact Ordering.isLT_iff_eq_lt
    rw [hholds, Text.toList_toUTF8, Text.toList_toUTF8]
    exact ⟨compareText_eq_lt_iff _ _, compareText_eq_lt_iff_bytes _ _⟩
  · intro h
    obtain ⟨hcompare, hsame⟩ := Value.compare_of_prim?_ne h span
    exact (eval_of_error hcompare).2 hsame
  · intro hl hr
    -- Only closures have no primitive type.
    obtain ⟨c, rfl⟩ := Value.exists_closure_of_prim? hl
    obtain ⟨d, rfl⟩ := Value.exists_closure_of_prim? hr
    exact ⟨(eval_of_error rfl).1, c.same d, rfl, rfl⟩

/-- Three strings whose characters take one byte, two and four; a character and an integer; and a
closure compared with itself. -/
theorem BinaryOp.comparisons_consistent_multibyte :
    let l := Value.str "z"
    let r := Value.str "é"
    let t := Value.str "😀"
    let c := Value.closure default
    l.prim? = some .string ∧ lt.Holds l r .nowhere ∧ lt.Holds r t .nowhere ∧
      lt.Holds l t .nowhere ∧ ¬eq.Holds l r .nowhere ∧
      "z".toUTF8.data.toList < "é".toUTF8.data.toList ∧
      (∀ op ∈ comparisons, op.eval (.char 'a') (.int 1) .nowhere =
        .error ⟨.typeMismatch .char .int, some .nowhere⟩) ∧
      (∀ op ∈ structural,
        op.eval c c .nowhere = .error ⟨.functionalComparison, some .nowhere⟩) := by
  intro l r t c
  have hlr : lt.Holds l r .nowhere := rfl
  have hrt : lt.Holds r t .nowhere := rfl
  obtain ⟨hconsistent, hstrings, -, -⟩ := comparisons_consistent l r t .nowhere
  have h := hconsistent .string (by decide) rfl rfl rfl
  refine ⟨rfl, hlr, hrt, h.lt_trans hlr hrt, ?_, (hstrings "z" "é").2.mp hlr, ?_, ?_⟩
  · have hne : l ≠ r := by
      intro heq
      exact absurd (Value.str.inj heq) (by decide)
    exact fun heq => hne (h.eq_iff.mp heq)
  · exact (comparisons_consistent (.char 'a') (.int 1) l .nowhere).2.2.1 (by decide)
  · exact ((comparisons_consistent c c c .nowhere).2.2.2 rfl rfl).1

end ContractML
