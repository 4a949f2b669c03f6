import ContractML.Proofs.Closures
import ContractML.Proofs.Conservation
import ContractML.Proofs.Relabelling

/-!
# Reading frames back

The evaluator on frames keeps local variables in the store, and a function keeps the chain of frames
in which it was made. Reading a chain back gives the environment that it stands for: the bindings of
its frames one inside the other, over the global frame, which stays a frame. A value is read back by
reading back every chain in it, which is a relabelling.

Which chains have been opened, and what they stand for, is written down beside the run and not
computed from the store. The record grows as frames are opened. What is in it stays right, because
no frame is written once its parameters are bound, except for the global one.

## Main definitions

* `Readback` — the chains that have been opened, and what they stand for.
* `Chain.ReadsAs`, `Value.ReadsAs`, `Contract.ReadsAs` — chains, values and contracts read back.
* `Store.ReadsAs` — a store in which every chain that has been opened stands for its environment.
* `Readback.opening` — one more chain.

## Main results

* `Value.relabel_eq_of_onFrames` — what is read back depends on the chains inside alone.
* `Store.ReadsAs.get?` — **looking up a name in a chain and in what it stands for**.
* `Store.ReadsAs.define` — binding a global name.
* `Workspace.readsAs_enclose` — opening a frame.
-/

namespace ContractML

/-! ### Values on frames -/

/-- The relabelling that replaces frames by environments and changes nothing else. -/
def Relabelling.reading (env : Chain → Env) : Relabelling := ⟨id, id, Function.injective_id, env⟩

/-- A function of the language was made in one of the chains. -/
def Closure.OnFrames (opened : Chain → Prop) : Closure → Prop
  | .user _ _ _ env => ∃ c, env = .frames c ∧ opened c
  | _ => True

theorem Closure.OnFrames.mono {opened opened' : Chain → Prop} (h : ∀ c, opened c → opened' c)
    (c : Closure) (hc : c.OnFrames opened) : c.OnFrames opened' := by
  cases c with
  | user id params body env =>
    obtain ⟨chain, henv, hchain⟩ := hc
    exact ⟨chain, henv, h chain hchain⟩
  | _ => trivial

section Congruence

variable {opened : Chain → Prop} {env env' : Chain → Env}

mutual

/-- What is read back depends only on what the chains inside stand for. -/
theorem Value.relabel_eq_of_onFrames (h : ∀ c, opened c → env' c = env c) : ∀ {v : Value},
    v.All (Closure.OnFrames opened) → v.relabel (.reading env') = v.relabel (.reading env)
  | .closure c, hv => by
    rw [Value.relabel_closure, Value.relabel_closure,
      Closure.relabel_eq_of_onFrames h (Value.all_closure.mp hv)]
  | .int _, _ | .float _, _ | .bool _, _ | .char _, _ | .str _, _ => rfl

theorem Closure.relabel_eq_of_onFrames (h : ∀ c, opened c → env' c = env c) : ∀ {c : Closure},
    c.All (Closure.OnFrames opened) → c.relabel (.reading env') = c.relabel (.reading env)
  | .native _ _ _ _, _ => rfl
  | .user n params body _, hc => by
    obtain ⟨⟨chain, rfl, hchain⟩, -⟩ := Closure.all_user.mp hc
    exact congrArg (Closure.user n params (body.move id)) (h chain hchain)
  | .monitored _ _ _ _ _ _, hc => by
    obtain ⟨-, hinner, hdomain, hrange⟩ := Closure.all_monitored.mp hc
    rw [Closure.relabel, Closure.relabel, Closure.relabel_eq_of_onFrames h hinner,
      Contract.relabelAll_eq_of_onFrames h hdomain, Contract.relabel_eq_of_onFrames h hrange]
    rfl
termination_by structural c => c

theorem Contract.relabel_eq_of_onFrames (h : ∀ c, opened c → env' c = env c) : ∀ {k : Contract},
    k.All (Closure.OnFrames opened) → k.relabel (.reading env') = k.relabel (.reading env)
  | .base _ _, hk => by
    rw [Contract.relabel, Contract.relabel,
      Closure.relabel_eq_of_onFrames h (Contract.all_base.mp hk)]
  | .function _ _ _, hk => by
    obtain ⟨hdomain, hrange⟩ := Contract.all_function.mp hk
    rw [Contract.relabel, Contract.relabel, Contract.relabelAll_eq_of_onFrames h hdomain,
      Contract.relabel_eq_of_onFrames h hrange]
termination_by structural k => k

theorem Contract.relabelAll_eq_of_onFrames (h : ∀ c, opened c → env' c = env c) :
    ∀ {ks : List Contract}, (∀ k ∈ ks, k.All (Closure.OnFrames opened)) →
      Contract.relabelAll (.reading env') ks = Contract.relabelAll (.reading env) ks
  | [], _ => rfl
  | _ :: _, hks => by
    rw [List.forall_mem_cons] at hks
    rw [Contract.relabelAll, Contract.relabelAll, Contract.relabel_eq_of_onFrames h hks.1,
      Contract.relabelAll_eq_of_onFrames h hks.2]
termination_by structural ks => ks

end

end Congruence

/-! ### Readbacks -/

/-- The chains of frames that have been opened, and the environments that they stand for. -/
structure Readback where
  /-- The chains that have been opened. -/
  opened : Chain → Prop
  /-- The environments that they stand for. -/
  env : Chain → Env

namespace Readback

/-- Reading values back. -/
def labels (r : Readback) : Relabelling := .reading r.env

/-- More chains may have been opened; those that were stand for what they stood for. -/
structure Extends (r r' : Readback) : Prop where
  opened : ∀ c, r.opened c → r'.opened c
  env : ∀ c, r.opened c → r'.env c = r.env c

variable {r r' r'' : Readback}

theorem Extends.refl (r : Readback) : r.Extends r := ⟨fun _ h => h, fun _ _ => rfl⟩

theorem Extends.trans (h : r.Extends r') (h' : r'.Extends r'') : r.Extends r'' where
  opened c hc := h'.opened c (h.opened c hc)
  env c hc := (h'.env c (h.opened c hc)).trans (h.env c hc)

end Readback

variable {r r' : Readback}

/-- The chain has been opened and stands for the environment. -/
def Chain.ReadsAs (r : Readback) (c : Chain) (env : Env) : Prop := r.opened c ∧ env = r.env c

/-- The second value is the first one read back. -/
def Value.ReadsAs (r : Readback) (v w : Value) : Prop :=
  v.All (Closure.OnFrames r.opened) ∧ w = v.relabel r.labels

/-- The second closure is the first one read back. -/
def Closure.ReadsAs (r : Readback) (c d : Closure) : Prop :=
  c.All (Closure.OnFrames r.opened) ∧ d = c.relabel r.labels

/-- The second list of values is the first one read back. -/
def Value.AllReadAs (r : Readback) (vs ws : List Value) : Prop :=
  (∀ v ∈ vs, v.All (Closure.OnFrames r.opened)) ∧ ws = vs.map (Value.relabel r.labels)

/-- The second contract is the first one read back. -/
def Contract.ReadsAs (r : Readback) (k l : Contract) : Prop :=
  k.All (Closure.OnFrames r.opened) ∧ l = k.relabel r.labels

/-- The second list of contracts is the first one read back. -/
def Contract.AllReadAs (r : Readback) (ks ls : List Contract) : Prop :=
  (∀ k ∈ ks, k.All (Closure.OnFrames r.opened)) ∧ ls = Contract.relabelAll r.labels ks

section Mono

variable (h : r.Extends r')
include h

theorem Chain.ReadsAs.mono {c : Chain} {env : Env} (hc : c.ReadsAs r env) : c.ReadsAs r' env :=
  ⟨h.opened c hc.1, hc.2.trans (h.env c hc.1).symm⟩

theorem Value.relabel_mono {v : Value} (hv : v.All (Closure.OnFrames r.opened)) :
    v.relabel r'.labels = v.relabel r.labels :=
  Value.relabel_eq_of_onFrames h.env hv

theorem Value.ReadsAs.mono {v w : Value} (hv : v.ReadsAs r w) : v.ReadsAs r' w :=
  ⟨Value.All.mono hv.1 (Closure.OnFrames.mono h.opened),
    hv.2.trans (Value.relabel_mono h hv.1).symm⟩

theorem Value.AllReadAs.mono {vs ws : List Value} (hvs : Value.AllReadAs r vs ws) :
    Value.AllReadAs r' vs ws := by
  refine ⟨fun v hv => (hvs.1 v hv).mono (Closure.OnFrames.mono h.opened), ?_⟩
  rw [hvs.2]
  exact List.map_congr_left fun v hv => (Value.relabel_mono h (hvs.1 v hv)).symm

theorem Closure.ReadsAs.mono {c d : Closure} (hc : c.ReadsAs r d) : c.ReadsAs r' d :=
  ⟨fun e he => (hc.1 e he).mono h.opened,
    hc.2.trans (Closure.relabel_eq_of_onFrames h.env hc.1).symm⟩

theorem Contract.ReadsAs.mono {k l : Contract} (hk : k.ReadsAs r l) : k.ReadsAs r' l :=
  ⟨fun c hc => (hk.1 c hc).mono h.opened,
    hk.2.trans (Contract.relabel_eq_of_onFrames h.env hk.1).symm⟩

theorem Contract.AllReadAs.mono {ks ls : List Contract} (hks : Contract.AllReadAs r ks ls) :
    Contract.AllReadAs r' ks ls :=
  ⟨fun k hk c hc => (hks.1 k hk c hc).mono h.opened,
    hks.2.trans (Contract.relabelAll_eq_of_onFrames h.env hks.1).symm⟩

end Mono

/-- What a store holds reads back as before when more chains have been opened. -/
theorem Store.Each.map_relabel {store : Store} (h : r.Extends r')
    (hheld : store.Each (Value.All (Closure.OnFrames r.opened))) (i : Nat) (name : String) :
    ((store.frame i).get? name).map (Value.relabel r'.labels) =
      ((store.frame i).get? name).map (Value.relabel r.labels) := by
  cases hv : (store.frame i).get? name with
  | none => rfl
  | some v => exact congrArg some (Value.relabel_mono h (hheld i name v hv))

theorem Value.readsAs_of_isClosure {v : Value} (h : v.isClosure = false) : v.ReadsAs r v :=
  ⟨Value.all_of_isClosure h, (Value.relabel_of_isClosure r.labels h).symm⟩

namespace Value.AllReadAs

variable {v w : Value} {vs ws : List Value}

theorem nil : Value.AllReadAs r [] [] := ⟨nofun, rfl⟩

theorem cons (hv : v.ReadsAs r w) (hvs : Value.AllReadAs r vs ws) :
    Value.AllReadAs r (v :: vs) (w :: ws) :=
  ⟨List.forall_mem_cons.mpr ⟨hv.1, hvs.1⟩, by rw [hv.2, hvs.2, List.map_cons]⟩

theorem of_cons (h : Value.AllReadAs r (v :: vs) ws) :
    ∃ u us, ws = u :: us ∧ v.ReadsAs r u ∧ Value.AllReadAs r vs us := by
  obtain ⟨hall, rfl⟩ := h
  rw [List.forall_mem_cons] at hall
  exact ⟨_, _, rfl, ⟨hall.1, rfl⟩, hall.2, rfl⟩

end Value.AllReadAs

namespace Contract.AllReadAs

variable {k l : Contract} {ks ls : List Contract}

theorem nil : Contract.AllReadAs r [] [] := ⟨nofun, rfl⟩

theorem cons (hk : k.ReadsAs r l) (hks : Contract.AllReadAs r ks ls) :
    Contract.AllReadAs r (k :: ks) (l :: ls) :=
  ⟨List.forall_mem_cons.mpr ⟨hk.1, hks.1⟩, by rw [hk.2, hks.2, Contract.relabelAll]⟩

theorem of_cons (h : Contract.AllReadAs r (k :: ks) ls) :
    ∃ m ms, ls = m :: ms ∧ k.ReadsAs r m ∧ Contract.AllReadAs r ks ms := by
  obtain ⟨hall, rfl⟩ := h
  rw [List.forall_mem_cons] at hall
  exact ⟨_, _, rfl, ⟨hall.1, rfl⟩, hall.2, rfl⟩

theorem function (hks : Contract.AllReadAs r ks ls) (hk : k.ReadsAs r l) (label : String) :
    (Contract.function ks k label).ReadsAs r (.function ls l label) :=
  ⟨Contract.all_function.mpr ⟨hks.1, hk.1⟩, by rw [hks.2, hk.2, Contract.relabel]⟩

end Contract.AllReadAs

/-! ### Stores -/

/-- A frame was opened inside another one. In what it stands for, its own bindings come first, over
any global ones. -/
structure Readback.Inside (r : Readback) (store : Store) (inner outer : Chain) : Prop where
  opened : r.opened outer
  pos : 0 < inner.frame
  lt : inner.frame < store.frames.size
  root : (r.env inner).root = (r.env outer).root
  get? : ∀ globals name, (r.env inner).get? globals name =
    (((store.frame inner.frame).get? name).map (Value.relabel r.labels)).or
      ((r.env outer).get? globals name)

/-- Every chain that has been opened stands for its environment over the second store, which holds
the global bindings read back. -/
structure Store.ReadsAs (r : Readback) (store globals : Store) : Prop where
  size : 0 < store.frames.size
  size_globals : 0 < globals.frames.size
  global : Store.global.ReadsAs r (.frames Store.global)
  bindings : (store.frame 0).Maps (Value.relabel r.labels) (globals.frame 0)
  held : store.Each (Value.All (Closure.OnFrames r.opened))
  outermost : ∀ i, r.opened ⟨i, []⟩ → i = 0
  inside : ∀ i o os, r.opened ⟨i, o :: os⟩ → r.Inside store ⟨i, o :: os⟩ ⟨o, os⟩

namespace Store.ReadsAs

variable {store globals : Store}

/-- **A name has the same binding in a chain and in what the chain stands for.** -/
theorem get? (h : store.ReadsAs r globals) {c : Chain} (hc : r.opened c) (name : String) :
    (r.env c).get? globals name = (store.get? c name).map (Value.relabel r.labels) := by
  obtain ⟨i, os⟩ := c
  induction os generalizing i with
  | nil =>
    have hi := h.outermost i hc
    subst hi
    have henv : r.env ⟨0, []⟩ = .frames Store.global := h.global.2.symm
    rw [henv, Env.get?_frames, Store.get?, Store.get?, Store.global, Store.getIn?, Store.getIn?,
      Store.getIn?, Store.getIn?, Option.or_none, Option.or_none]
    exact h.bindings name
  | cons o os ih =>
    have hinside := h.inside i o os hc
    rw [hinside.get?, ih o hinside.opened, ← Option.map_or]
    rfl

/-- What is looked up in a chain reads back as what is looked up in what it stands for. -/
theorem lookup (h : store.ReadsAs r globals) {c : Chain} {env : Env} (hc : c.ReadsAs r env)
    (name : String) :
    match store.get? c name with
    | some v => ∃ w, env.get? globals name = some w ∧ v.ReadsAs r w
    | none => env.get? globals name = none := by
  obtain ⟨hc, rfl⟩ := hc
  rw [h.get? hc]
  cases hv : store.get? c name with
  | none => rfl
  | some v => exact ⟨_, rfl, h.held.getIn? hv, rfl⟩

/-- Every chain that has been opened leads to the global frame. -/
theorem root (h : store.ReadsAs r globals) {c : Chain} {env : Env} (hc : c.ReadsAs r env) :
    c.root.ReadsAs r env.root := by
  obtain ⟨hc, rfl⟩ := hc
  obtain ⟨i, os⟩ := c
  induction os generalizing i with
  | nil =>
    have hi := h.outermost i hc
    subst hi
    have hglobal := h.global
    rw [Chain.ReadsAs, Store.global] at hglobal
    rw [← hglobal.2]
    exact h.global
  | cons o os ih =>
    have hinside := h.inside i o os hc
    have hroot : (Chain.mk i (o :: os)).root = (Chain.mk o os).root := by
      simp [Chain.root, List.getLast?_cons]
    rw [hroot, hinside.root]
    exact ih o hinside.opened

theorem lt (h : store.ReadsAs r globals) {c : Chain} (hc : r.opened c) :
    c.frame < store.frames.size := by
  obtain ⟨i, os⟩ := c
  cases os with
  | nil =>
    have hi := h.outermost i hc
    subst hi
    exact h.size
  | cons o os => exact (h.inside i o os hc).lt

/-- Binding a global name to a value, and to the value that it reads back as. -/
theorem define (h : store.ReadsAs r globals) {v w : Value} (hv : v.ReadsAs r w) (name : String) :
    (store.define Store.global name v).ReadsAs r (globals.define Store.global name w) where
  size := by simpa [Store.define] using h.size
  size_globals := by simpa [Store.define] using h.size_globals
  global := h.global
  bindings := by
    rw [Store.frame_define, Store.frame_define, if_pos ⟨rfl, h.size⟩, if_pos ⟨rfl, h.size_globals⟩,
      hv.2]
    exact h.bindings.insert name v
  held := h.held.define Store.global name hv.1
  outermost := h.outermost
  inside i o os hc := by
    have hinside := h.inside i o os hc
    have hne : ¬(Store.global.frame = i ∧ i < store.frames.size) :=
      fun hi => Nat.ne_of_lt hinside.pos hi.1
    refine ⟨hinside.opened, hinside.pos, ?_, hinside.root, ?_⟩
    · simpa [Store.define] using hinside.lt
    · rw [Store.frame_define, if_neg hne]
      exact hinside.get?

end Store.ReadsAs

/-! ### Opening a frame -/

/-- The record with one more chain. -/
def Readback.opening (r : Readback) (child : Chain) (env : Env) : Readback where
  opened c := c = child ∨ r.opened c
  env c := if c = child then env else r.env c

theorem Readback.extends_opening {child : Chain} (hnew : ¬r.opened child) (env : Env) :
    r.Extends (r.opening child env) where
  opened _ hc := .inr hc
  env c hc := if_neg fun heq => hnew (by rwa [heq] at hc)

theorem Readback.readsAs_opening (r : Readback) (child : Chain) (env : Env) :
    child.ReadsAs (r.opening child env) env :=
  ⟨.inl rfl, (if_pos rfl).symm⟩

theorem Env.root_bindAll (env : Env) (params : List String) (args : List Value) :
    (env.bindAll params args).root = env.root := by
  rw [Env.bindAll]
  induction params.zip args generalizing env with
  | nil => rfl
  | cons p ps ih => exact ih (.bind p.1 p.2 env)

/-- What a name is bound to was in the table before or is among the new bindings. -/
theorem Table.mem_of_get?_fill {t : Table Value} {bindings : List (String × Value)} {name : String}
    {v : Value} (h : (t.fill bindings).get? name = some v) :
    t.get? name = some v ∨ ∃ p ∈ bindings, p.2 = v := by
  induction bindings generalizing t with
  | nil => exact .inl h
  | cons p ps ih =>
    rcases ih h with h | ⟨q, hq, hv⟩
    · rw [Table.get?_insert] at h
      split at h
      · exact .inr ⟨p, List.mem_cons_self, Option.some.inj h⟩
      · exact .inl h
    · exact .inr ⟨q, List.mem_cons_of_mem p hq, hv⟩

/-- A frame that is filled with parameters has the bindings of an environment that binds the
parameters to the values read back. -/
theorem Env.get?_bindAll_map {g : Value → Value} {globals : Store} (name : String)
    (params : List String) (args : List Value) (outer : Env) :
    (outer.bindAll params (args.map g)).get? globals name =
      (((Table.empty.fill (params.zip args)).get? name).map g).or (outer.get? globals name) := by
  -- The table and the environment are filled in step.
  have hfill : ∀ (ps : List (String × Value)) (env : Env) (t : Table Value),
      env.get? globals name = ((t.get? name).map g).or (outer.get? globals name) →
        ((ps.map fun p => (p.1, g p.2)).foldl (fun env p => .bind p.1 p.2 env) env).get? globals
            name = (((t.fill ps).get? name).map g).or (outer.get? globals name) := by
    intro ps
    induction ps with
    | nil => exact fun _ _ h => h
    | cons p ps ih =>
      intro env t h
      refine ih (.bind p.1 (g p.2) env) (t.insert p.1 p.2) ?_
      rw [Env.get?_bind, Table.get?_insert, h]
      split <;> rfl
  have hzip : params.zip (args.map g) = (params.zip args).map fun p => (p.1, g p.2) :=
    List.zip_map_right
  rw [Env.bindAll, hzip]
  exact hfill _ outer .empty rfl

namespace Workspace

variable {w : Workspace} {globals : Store}

/-- What is held after a frame has been opened was held before or is an argument. -/
theorem each_enclose {V : Value → Prop} (h : w.store.Each V) (c : Chain) (params : List String)
    {args : List Value} (hargs : ∀ a ∈ args, V a) : (w.enclose c params args).2.store.Each V := by
  obtain ⟨-, -, hown, hother⟩ := w.enclose_spec c params args
  intro i name v hv
  by_cases hi : i = w.store.frames.size
  · rw [hi, hown] at hv
    rcases Table.mem_of_get?_fill hv with hv | ⟨p, hp, rfl⟩
    · rw [Table.get?_empty] at hv
      cases hv
    · exact hargs p.2 (List.of_mem_zip hp).2
  · rw [hother i hi] at hv
    exact h i name v hv

/-- Opening a frame extends the record by a chain that stands for the parameters bound over what the
outer chain stands for. -/
theorem readsAs_enclose (h : w.store.ReadsAs r globals) {c : Chain} {env : Env}
    (hc : c.ReadsAs r env) {args args' : List Value} (hargs : Value.AllReadAs r args args')
    (params : List String) :
    ∃ r', r.Extends r' ∧ (w.enclose c params args).2.store.ReadsAs r' globals ∧
      (w.enclose c params args).1.ReadsAs r' (env.bindAll params args') := by
  obtain ⟨hopened, rfl⟩ := hc
  obtain ⟨hheld, rfl⟩ := hargs
  obtain ⟨-, hsize, hown, hother⟩ := w.enclose_spec c params args
  let child : Chain := ⟨w.store.frames.size, c.frame :: c.outer⟩
  let inner := (r.env c).bindAll params (args.map (Value.relabel r.labels))
  have hnew : ¬r.opened child := fun hchild => Nat.lt_irrefl _ (h.lt hchild)
  have hext : r.Extends (r.opening child inner) := Readback.extends_opening hnew inner
  have hinner : (r.opening child inner).env child = inner := if_pos rfl
  have hheld' := each_enclose h.held c params hheld
  -- No value that is held was made in the new chain, so all read back as before.
  have hsame := hheld'.map_relabel hext
  refine ⟨r.opening child inner, hext, ⟨?_, h.size_globals, h.global.mono hext, fun name => ?_,
    hheld'.mono fun v hv => hv.mono (Closure.OnFrames.mono hext.opened), ?_, ?_⟩,
    r.readsAs_opening child inner⟩
  · rw [hsize]
    exact Nat.succ_pos _
  · rw [hsame, hother 0 (Nat.ne_of_lt h.size)]
    exact h.bindings name
  · rintro i (hi | hi)
    · cases congrArg Chain.outer hi
    · exact h.outermost i hi
  · rintro i o os (hi | hi)
    · obtain ⟨rfl, rfl, rfl⟩ : i = w.store.frames.size ∧ o = c.frame ∧ os = c.outer := by
        simpa [child] using hi
      refine ⟨.inr hopened, h.size, ?_, ?_, fun globals name => ?_⟩
      · rw [hsize]
        exact Nat.lt_succ_self _
      · rw [hinner, hext.env c hopened]
        exact Env.root_bindAll _ params _
      · rw [hinner, hext.env c hopened, hsame, hown]
        exact Env.get?_bindAll_map name params args _
    · have hinside := h.inside i o os hi
      have hne : i ≠ w.store.frames.size := Nat.ne_of_lt hinside.lt
      refine ⟨.inr hinside.opened, hinside.pos, ?_, ?_, fun globals name => ?_⟩
      · rw [hsize]
        exact Nat.lt_succ_of_lt hinside.lt
      · rw [hext.env _ hi, hext.env _ hinside.opened, hinside.root]
      · rw [hext.env _ hi, hext.env _ hinside.opened, hsame, hother i hne]
        exact hinside.get? globals name

end Workspace

end ContractML
