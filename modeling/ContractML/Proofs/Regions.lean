import Mathlib.Data.List.Forall2
import Mathlib.Logic.Relation
import ContractML.Monitor

/-!
# Regions of the scope stack

Work on a scope stack declares contracts, looks them up, monitors expressions, and opens regions: a
scope is opened, more work is done, and the innermost scope is closed. What comes next may depend on
every answer so far. Declarations go to whichever scope is innermost, and so does closing, but
regions are nested, so every region closes its own scope and takes its declarations with it.

A run is also seen step by step. A point of it records what is left to do, and which regions are
open with what was declared in them. The stack at a point is determined by that and by the stack on
which the outermost region was opened.

## Main definitions

* `ScopeStack.Guard` — a scope that is open until a guard is dropped.
* `ScopeStack.Work`, `ScopeStack.Work.run` — work on a scope stack, and what it does.
* `ScopeStack.Point`, `ScopeStack.Point.Step` — the points of a run, and one step.
* `ScopeStack.Point.Consistent` — the stack holds the open regions over the outer stack.

## Main results

* `ScopeStack.Work.reaches_done` — the steps lead to what the run gives.
* `ScopeStack.Point.Consistent.step`, `ScopeStack.Point.Consistent.reaches` — a step, and any number
  of steps, keep the stack consistent.
* `ScopeStack.regions_leave_no_trace` — **regions leave no trace**, and within them the innermost
  declaration is found.
-/

namespace ContractML.ScopeStack

variable {α : Type}

/-! ### Work on a scope stack -/

/-- A guard over a scope of its own. It lends the stack on which the scope is open. -/
structure Guard where
  /-- The stack that is lent. -/
  stack : ScopeStack

/-- Opens a scope that stays open until its guard is dropped. -/
def guarded (s : ScopeStack) (name : String) : Guard := ⟨s.push name⟩

/-- Does some work on the stack that a guard lends. -/
def Guard.use (g : Guard) (work : StateM ScopeStack α) : α × Guard :=
  let (a, stack) := work.run g.stack
  (a, ⟨stack⟩)

/-- Drops the guard, which closes the innermost scope. -/
def Guard.drop (g : Guard) : ScopeStack := g.stack.pop

/-- How a region is opened and closed. -/
inductive Bracket where
  /-- By opening a scope and closing it by hand. -/
  | pushPop
  /-- By `ScopeStack.within`. -/
  | within
  /-- By a guard. -/
  | guarded

/-- Some work inside a region. -/
def Bracket.around (how : Bracket) (name : String) (work : StateM ScopeStack α) :
    StateM ScopeStack α :=
  match how with
  | pushPop => do
    modify fun s => s.push name
    let a ← work
    modify pop
    return a
  | within => ScopeStack.within name work
  | guarded => fun s =>
    let (a, g) := (s.guarded name).use work
    (a, g.drop)

/-- The three ways of opening a region do the same. -/
theorem Bracket.run_around (how : Bracket) (name : String) (work : StateM ScopeStack α)
    (s : ScopeStack) :
    (how.around name work).run s =
      ((work.run (s.push name)).1, (work.run (s.push name)).2.pop) := by
  cases how <;> rfl

/-- Work on a scope stack that closes every scope it opens, and no other. Each operation says what
comes next, given its answer. -/
inductive Work (α : Type) where
  /-- Nothing is left to do. -/
  | done (a : α)
  /-- Declares the contract of a name. -/
  | declare (name : String) (c : ContractExpr) (next : Work α)
  /-- Asks for the contract of a name. -/
  | lookup (name : String) (next : Option ContractExpr → Work α)
  /-- Asks for the name of the innermost scope. -/
  | current (next : Option String → Work α)
  /-- Monitors an expression. -/
  | monitor (e : Expr) (next : Expr → Work α)
  /-- Does some work inside a region. -/
  | region (how : Bracket) (name : String) (body : Work α) (next : α → Work α)

/-- What work does. -/
def Work.run : Work α → StateM ScopeStack α
  | done a => return a
  | declare name c next => do
    modify fun s => s.declare name c
    next.run
  | lookup name next => do
    let s ← get
    (next (s.lookup? name)).run
  | current next => do
    let s ← get
    (next s.current?).run
  | monitor e next => do
    let s ← get
    (next (e.monitor s)).run
  | region how name body next => do
    let a ← how.around name body.run
    (next a).run

/-! ### Points of a run -/

/-- A region that is open: its name, and what was declared in it, the last declaration first. -/
structure Region where
  /-- The name of its scope. -/
  name : String
  /-- The declarations made in it. -/
  declared : List (String × ContractExpr)

/-- The contract of the last declaration of a name in a region. -/
def Region.last? (r : Region) (x : String) : Option ContractExpr :=
  r.declared.findSome? fun d => if d.1 = x then some d.2 else none

/-- The region after a declaration. -/
def Region.declare (r : Region) (x : String) (c : ContractExpr) : Region :=
  { r with declared := (x, c) :: r.declared }

/-- A point of a run inside a region. -/
structure Point (α : Type) where
  /-- What is left to do in the innermost region. -/
  work : Work α
  /-- What comes after the regions that were opened since, the innermost one first. -/
  pending : List (α → Work α)
  /-- The innermost open region. -/
  inner : Region
  /-- The regions around it, from the inside out. -/
  outer : List Region
  /-- The stack. -/
  stack : ScopeStack

namespace Point

/-- The open regions, from the inside out. -/
def regions (p : Point α) : List Region := p.inner :: p.outer

/-- The point at which a region is entered. -/
def enter (s : ScopeStack) (name : String) (body : Work α) : Point α :=
  ⟨body, [], ⟨name, []⟩, [], s.push name⟩

/-- One step of a run. The work of a region that is done closes the region. -/
inductive Step : Point α → Point α → Prop
  | declare (x : String) (c : ContractExpr) (next : Work α) (ks r rs s) :
    Step ⟨.declare x c next, ks, r, rs, s⟩ ⟨next, ks, r.declare x c, rs, s.declare x c⟩
  | lookup (x : String) (next : Option ContractExpr → Work α) (ks r rs s) :
    Step ⟨.lookup x next, ks, r, rs, s⟩ ⟨next (s.lookup? x), ks, r, rs, s⟩
  | current (next : Option String → Work α) (ks r rs s) :
    Step ⟨.current next, ks, r, rs, s⟩ ⟨next s.current?, ks, r, rs, s⟩
  | monitor (e : Expr) (next : Expr → Work α) (ks r rs s) :
    Step ⟨.monitor e next, ks, r, rs, s⟩ ⟨next (e.monitor s), ks, r, rs, s⟩
  | enter (how : Bracket) (name : String) (body : Work α) (next : α → Work α) (ks r rs s) :
    Step ⟨.region how name body next, ks, r, rs, s⟩
      ⟨body, next :: ks, ⟨name, []⟩, r :: rs, s.push name⟩
  | leave (a : α) (next : α → Work α) (ks r r' rs s) :
    Step ⟨.done a, next :: ks, r, r' :: rs, s⟩ ⟨next a, ks, r', rs, s.pop⟩

/-- The second point comes after the first one in a run. -/
def Reaches : Point α → Point α → Prop := Relation.ReflTransGen Step

end Point

/-- **The steps lead to what the run gives.** Work that is left to do in a region is done at some
point, with the same regions open around it and the stack that its run leaves. -/
theorem Work.reaches_done (w : Work α) (ks : List (α → Work α)) (r : Region) (rs : List Region)
    (s : ScopeStack) :
    ∃ r', Point.Reaches ⟨w, ks, r, rs, s⟩ ⟨.done (w.run.run s).1, ks, r', rs, (w.run.run s).2⟩ := by
  induction w generalizing ks r rs s with
  | done a => exact ⟨r, .refl⟩
  | declare x c next ih =>
    obtain ⟨r', h⟩ := ih ks (r.declare x c) rs (s.declare x c)
    exact ⟨r', .head (.declare x c next ks r rs s) h⟩
  | lookup x next ih =>
    obtain ⟨r', h⟩ := ih (s.lookup? x) ks r rs s
    exact ⟨r', .head (.lookup x next ks r rs s) h⟩
  | current next ih =>
    obtain ⟨r', h⟩ := ih s.current? ks r rs s
    exact ⟨r', .head (.current next ks r rs s) h⟩
  | monitor e next ih =>
    obtain ⟨r', h⟩ := ih (e.monitor s) ks r rs s
    exact ⟨r', .head (.monitor e next ks r rs s) h⟩
  | region how name body next ihbody ihnext =>
    -- the body is done in a region of its own, which is then left
    obtain ⟨r', hbody⟩ := ihbody (next :: ks) ⟨name, []⟩ (r :: rs) (s.push name)
    obtain ⟨r'', hnext⟩ := ihnext (body.run.run (s.push name)).1 ks r rs
      (body.run.run (s.push name)).2.pop
    have hrun : (Work.region how name body next).run.run s =
        (next (body.run.run (s.push name)).1).run.run (body.run.run (s.push name)).2.pop := by
      change (next ((how.around name body.run).run s).1).run.run
        ((how.around name body.run).run s).2 = _
      rw [how.run_around]
    rw [hrun]
    refine ⟨r'', .head (.enter how name body next ks r rs s) (hbody.trans ?_)⟩
    exact .head (.leave _ next ks r' r rs _) hnext

/-! ### The stack at a point -/

/-- The scope is that of the region: it has its name, and finds the last declarations. -/
structure Region.Mirrors (r : Region) (f : ContractScope) : Prop where
  name_eq : f.name = r.name
  get?_eq : ∀ x, f.contracts.get? x = r.last? x

theorem Region.mirrors_push (name : String) : Region.Mirrors ⟨name, []⟩ ⟨name, .empty⟩ :=
  ⟨rfl, fun _ => rfl⟩

theorem Region.Mirrors.declare {r : Region} {f : ContractScope} (h : r.Mirrors f) (x : String)
    (c : ContractExpr) :
    (r.declare x c).Mirrors { f with contracts := f.contracts.insert x c } := by
  refine ⟨h.name_eq, fun y => ?_⟩
  rw [Table.get?_insert, h.get?_eq]
  by_cases hxy : x = y
  · simp [Region.last?, Region.declare, hxy]
  · simp [Region.last?, Region.declare, hxy]

/-- A name is found in the scopes of regions where it was declared last in the regions. -/
theorem Region.findSome?_mirrors {rs : List Region} {fs : List ContractScope}
    (h : List.Forall₂ Region.Mirrors rs fs) (x : String) :
    (fs.findSome? fun f => f.contracts.get? x) = rs.findSome? fun r => r.last? x := by
  induction h with
  | nil => rfl
  | cons hr _ ih => rw [List.findSome?_cons, List.findSome?_cons, hr.get?_eq, ih]

/-- The stack at a point holds the open regions over the stack `s`, and a region is open around the
innermost one for each continuation that is pending. -/
structure Point.Consistent (s : ScopeStack) (p : Point α) : Prop where
  globals_eq : p.stack.globals = s.globals
  scopes_eq : ∃ f fs, p.stack.scopes = f :: fs ++ s.scopes ∧ p.inner.Mirrors f ∧
    List.Forall₂ Region.Mirrors p.outer fs
  nested : p.outer.length = p.pending.length

namespace Point.Consistent

variable {s : ScopeStack} {p q : Point α}

theorem enter (s : ScopeStack) (name : String) (body : Work α) :
    (Point.enter s name body).Consistent s :=
  ⟨rfl, ⟨⟨name, .empty⟩, [], rfl, Region.mirrors_push name, .nil⟩, rfl⟩

/-- **One step keeps the stack consistent.** -/
theorem step (h : p.Consistent s) (hstep : p.Step q) : q.Consistent s := by
  obtain ⟨hglobals, ⟨f, fs, hscopes, hinner, houter⟩, hnested⟩ := h
  cases hstep with
  | declare x c next ks r rs t =>
    obtain ⟨globals, scopes⟩ := t
    dsimp only at hglobals hscopes
    subst hglobals hscopes
    exact ⟨rfl, ⟨_, fs, rfl, hinner.declare x c, houter⟩, hnested⟩
  | lookup x next ks r rs t => exact ⟨hglobals, ⟨f, fs, hscopes, hinner, houter⟩, hnested⟩
  | current next ks r rs t => exact ⟨hglobals, ⟨f, fs, hscopes, hinner, houter⟩, hnested⟩
  | monitor e next ks r rs t => exact ⟨hglobals, ⟨f, fs, hscopes, hinner, houter⟩, hnested⟩
  | enter how name body next ks r rs t =>
    have hpushed : (t.push name).scopes = ⟨name, .empty⟩ :: (f :: fs) ++ s.scopes :=
      congrArg (ContractScope.mk name .empty :: ·) hscopes
    have hmirrors := Region.mirrors_push name
    exact ⟨hglobals, ⟨_, f :: fs, hpushed, hmirrors, .cons hinner houter⟩, congrArg (· + 1) hnested⟩
  | leave a next ks r r' rs t =>
    -- a continuation is pending, so the region that is left lies inside another one
    cases houter with
    | @cons _ f' _ fs' hr' hrs =>
      refine ⟨hglobals, ⟨f', fs', ?_, hr', hrs⟩, Nat.succ.inj hnested⟩
      exact congrArg List.tail hscopes

/-- **A run keeps the stack consistent.** -/
theorem reaches (h : p.Consistent s) (hreaches : p.Reaches q) : q.Consistent s := by
  induction hreaches with
  | refl => exact h
  | tail _ hstep ih => exact ih.step hstep

/-- The innermost declaration of a name in an open region is found, else the one from outside. -/
theorem lookup?_eq (h : p.Consistent s) (x : String) :
    p.stack.lookup? x = (p.regions.findSome? fun r => r.last? x).or (s.lookup? x) := by
  obtain ⟨f, fs, hscopes, hinner, houter⟩ := h.scopes_eq
  have hfound : ((f :: fs).findSome? fun f => f.contracts.get? x) =
      p.regions.findSome? fun r => r.last? x := Region.findSome?_mirrors (.cons hinner houter) x
  rw [lookup?, hscopes, h.globals_eq, List.findSome?_append, hfound, Option.or_assoc, lookup?]

theorem current?_eq (h : p.Consistent s) : p.stack.current? = some p.inner.name := by
  obtain ⟨f, fs, hscopes, hinner, -⟩ := h.scopes_eq
  rw [current?, hscopes, ← hinner.name_eq]
  rfl

/-- When no continuation is pending, closing the innermost scope gives the outer stack. -/
theorem pop_eq (h : p.Consistent s) (hpending : p.pending = []) : p.stack.pop = s := by
  obtain ⟨hglobals, ⟨f, fs, hscopes, -, houter⟩, hnested⟩ := h
  rw [hpending, List.length_nil, List.length_eq_zero_iff] at hnested
  rw [hnested] at houter
  cases houter
  rw [pop, hglobals, hscopes]
  rfl

end Point.Consistent

/-- **Regions leave no trace.** Let a region be opened on any stack, by `ScopeStack.within` or under
a guard, and let any work be done in it. When the region is closed, the stack is what it was. At
every point on the way to the end of the work, a name has the contract of its last declaration in
the innermost open region that has one, else the one that it had outside; and the innermost scope
has the name of the innermost open region. -/
theorem regions_leave_no_trace (s : ScopeStack) (name : String) (body : Work α) :
    ((within name body.run).run s).2 = s ∧ ((s.guarded name).use body.run).2.drop = s ∧
      (∃ r, (Point.enter s name body).Reaches
        ⟨.done (body.run.run (s.push name)).1, [], r, [], (body.run.run (s.push name)).2⟩) ∧
      ∀ p, (Point.enter s name body).Reaches p →
        (∀ x, p.stack.lookup? x = (p.regions.findSome? fun r => r.last? x).or (s.lookup? x)) ∧
          p.stack.current? = some p.inner.name := by
  have hconsistent := Point.Consistent.enter s name body
  obtain ⟨r, hdone⟩ := body.reaches_done [] ⟨name, []⟩ [] (s.push name)
  have hpop : (body.run.run (s.push name)).2.pop = s := (hconsistent.reaches hdone).pop_eq rfl
  refine ⟨hpop, hpop, ⟨r, hdone⟩, fun p hp => ?_⟩
  exact ⟨(hconsistent.reaches hp).lookup?_eq, (hconsistent.reaches hp).current?_eq⟩

/-- A name is declared outside, in a region, and once more in a region under a guard inside it.
Where the inner declaration has been made it is the one that counts; after the inner region it is
the outer region's again, and in the end the stack is the one from before. -/
theorem regions_leave_no_trace_shadowed :
    let flat (x : String) : ContractExpr := .flat (.var ⟨x, .nowhere⟩)
    let s := ScopeStack.empty.declare "f" (flat "positive")
    let ask : Work (Option ContractExpr) := .lookup "f" .done
    let body : Work (Option ContractExpr) :=
      .declare "f" (flat "negative") (.region .guarded "b" (.declare "f" (flat "zero") ask)
        fun _ => ask)
    let p : Point (Option ContractExpr) :=
      ⟨ask, [fun _ => ask], ⟨"b", [("f", flat "zero")]⟩, [⟨"a", [("f", flat "negative")]⟩],
        (((s.push "a").declare "f" (flat "negative")).push "b").declare "f" (flat "zero")⟩
    (Point.enter s "a" body).Reaches p ∧ p.stack.lookup? "f" = some (flat "zero") ∧
      p.stack.current? = some "b" ∧ ((within "a" body.run).run s).1 = some (flat "negative") ∧
      ((within "a" body.run).run s).2 = s := by
  intro flat s ask body p
  have hreaches : (Point.enter s "a" body).Reaches p :=
    .head (.declare ..) (.head (.enter ..) (.single (.declare ..)))
  obtain ⟨hwithin, -, -, hpoints⟩ := regions_leave_no_trace s "a" body
  obtain ⟨hlookup, hcurrent⟩ := hpoints p hreaches
  exact ⟨hreaches, hlookup "f", hcurrent, rfl, hwithin⟩

end ContractML.ScopeStack
