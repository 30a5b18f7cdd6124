import Mathlib.Data.List.Induction
import Mathlib.Logic.Function.Basic
import Mathlib.Tactic.Cases

/-!
# Updates that read and write back

Agents that share cells. An agent loads the cells of a region into a buffer of
its own, where it overlays some of them with new values, and stores the region
back. Loads and stores of different agents may come in any order; a trace is
orderly if each agent loads a cell before it stores it and does neither twice
(`Orderly`).

Whatever the order is, a cell has its first value or one that is overlaid on it
(`Orderly.cells_mem`). If only one agent overlays a cell, the new value stays
there from its store on if and only if no other agent loaded the cell before
that store and stores it back behind it (`Orderly.stays_iff`).
-/

namespace WriteBack

/-- What an agent does to a cell. -/
inductive Action where
  | load
  | store
deriving DecidableEq, Repr

/-- An event: an agent loads or stores a cell. -/
structure Event (ι α : Type*) where
  /-- Who. -/
  agent : ι
  /-- Which cell. -/
  cell : α
  /-- What. -/
  action : Action
deriving DecidableEq

/-- The cells, and the buffers of the agents. -/
structure State (ι α β : Type*) where
  /-- What is in the cells. -/
  cells : α → β
  /-- What the agents have loaded, with their overlays. -/
  buf : ι → α → β

variable {ι α β : Type*} [DecidableEq ι] [DecidableEq α]

/-- An agent loads a cell. -/
abbrev load (i : ι) (x : α) : Event ι α := ⟨i, x, .load⟩

/-- An agent stores a cell. -/
abbrev store (i : ι) (x : α) : Event ι α := ⟨i, x, .store⟩

/-- **One event.** A cell that is loaded is overlaid in the buffer. -/
def step (overlay : ι → α → Option β) (s : State ι α β) (e : Event ι α) : State ι α β :=
  match e.action with
  | .load =>
    { s with buf := Function.update s.buf e.agent (Function.update (s.buf e.agent) e.cell
        ((overlay e.agent e.cell).getD (s.cells e.cell))) }
  | .store => { s with cells := Function.update s.cells e.cell (s.buf e.agent e.cell) }

/-- The events of a trace one after the other. -/
def run (overlay : ι → α → Option β) (s : State ι α β) (trace : List (Event ι α)) :
    State ι α β :=
  trace.foldl (step overlay) s

/-- What a trace does to a cell for an agent. -/
def actions (i : ι) (x : α) (trace : List (Event ι α)) : List Action :=
  (trace.filter fun e => e.agent = i ∧ e.cell = x).map Event.action

/-- **An orderly trace**: an agent loads a cell before it stores it, and does
neither twice. -/
def Orderly (trace : List (Event ι α)) : Prop :=
  ∀ i x, actions i x trace <+: [.load, .store]

/-! ## Steps -/

section Steps

variable (overlay : ι → α → Option β) (s : State ι α β)

@[simp]
theorem run_nil : run overlay s [] = s := rfl

theorem run_append (t u : List (Event ι α)) :
    run overlay s (t ++ u) = run overlay (run overlay s t) u :=
  List.foldl_append

theorem run_concat (t : List (Event ι α)) (e : Event ι α) :
    run overlay s (t ++ [e]) = step overlay (run overlay s t) e :=
  run_append overlay s t [e]

@[simp]
theorem step_load_cells (i : ι) (x : α) : (step overlay s (load i x)).cells = s.cells := rfl

@[simp]
theorem step_store_buf (i : ι) (x : α) : (step overlay s (store i x)).buf = s.buf := rfl

theorem step_load_buf (i : ι) (x : α) :
    (step overlay s (load i x)).buf i x = (overlay i x).getD (s.cells x) := by
  show Function.update s.buf i _ i x = _
  rw [Function.update_self, Function.update_self]

theorem step_load_buf_of_ne {i j : ι} {x y : α} (h : ¬(j = i ∧ y = x)) :
    (step overlay s (load i x)).buf j y = s.buf j y := by
  show Function.update s.buf i _ j y = _
  by_cases hj : j = i
  · subst hj
    rw [Function.update_self, Function.update_of_ne fun hy => h ⟨rfl, hy⟩]
  · rw [Function.update_of_ne hj]

theorem step_store_cells (i : ι) (x : α) :
    (step overlay s (store i x)).cells x = s.buf i x :=
  Function.update_self ..

theorem step_store_cells_of_ne {i : ι} {x y : α} (h : y ≠ x) :
    (step overlay s (store i x)).cells y = s.cells y :=
  Function.update_of_ne h ..

end Steps

/-! ## Orderly traces -/

section Orderly

variable {i j : ι} {x y : α} {t u : List (Event ι α)} {e : Event ι α}

theorem actions_append (i : ι) (x : α) (t u : List (Event ι α)) :
    actions i x (t ++ u) = actions i x t ++ actions i x u := by
  rw [actions, List.filter_append, List.map_append]
  rfl

theorem actions_singleton (i : ι) (x : α) (a : Action) : actions i x [⟨i, x, a⟩] = [a] := by
  simp [actions]

theorem mem_actions {a : Action} : a ∈ actions i x t ↔ (⟨i, x, a⟩ : Event ι α) ∈ t := by
  rw [actions, List.mem_map]
  constructor
  · rintro ⟨⟨j, y, b⟩, he, rfl⟩
    obtain ⟨hmem, hp⟩ := List.mem_filter.mp he
    obtain ⟨rfl, rfl⟩ := of_decide_eq_true hp
    exact hmem
  · intro h
    exact ⟨_, List.mem_filter.mpr ⟨h, decide_eq_true ⟨rfl, rfl⟩⟩, rfl⟩

theorem Orderly.of_append (h : Orderly (t ++ u)) : Orderly t := by
  intro i x
  have hp := h i x
  rw [actions_append] at hp
  exact (List.prefix_append _ _).trans hp

theorem Orderly.of_prefix (h : Orderly u) (ht : t <+: u) : Orderly t := by
  obtain ⟨v, rfl⟩ := ht
  exact h.of_append

/-- **A store** comes behind a load of the same agent, and there was no other
store. -/
theorem Orderly.store_cases (h : Orderly (t ++ store i x :: u)) :
    load i x ∈ t ∧ store i x ∉ t ∧ load i x ∉ u ∧ store i x ∉ u := by
  have hp := h i x
  rw [show t ++ store i x :: u = t ++ ([store i x] ++ u) from rfl, actions_append,
    actions_append, actions_singleton] at hp
  have hlen := hp.length_le
  rcases ht : actions i x t with _ | ⟨a, _ | ⟨b, l⟩⟩
  · rw [ht] at hp
    obtain ⟨v, hv⟩ := hp
    exact absurd hv (by simp)
  · rw [ht] at hp hlen
    have hu : actions i x u = [] := by
      rcases hu : actions i x u with _ | ⟨c, l⟩
      · rfl
      · rw [hu] at hlen
        simp at hlen
    have ha : a = .load := by
      obtain ⟨v, hv⟩ := hp
      exact (List.cons.inj hv).1
    refine ⟨mem_actions.mp ?_, fun hs => ?_, fun hl => ?_, fun hs => ?_⟩
    · rw [ht, ha]
      exact List.mem_cons_self
    · have := mem_actions.mpr hs
      rw [ht, ha] at this
      exact absurd this (by decide)
    · have := mem_actions.mpr hl
      rw [hu] at this
      exact absurd this (by simp)
    · have := mem_actions.mpr hs
      rw [hu] at this
      exact absurd this (by simp)
  · rw [ht] at hlen
    simp at hlen

/-- **A load** comes before everything else the agent does to the cell. -/
theorem Orderly.load_cases (h : Orderly (t ++ load i x :: u)) :
    load i x ∉ t ∧ store i x ∉ t ∧ load i x ∉ u := by
  have hp := h i x
  rw [show t ++ load i x :: u = t ++ ([load i x] ++ u) from rfl, actions_append,
    actions_append, actions_singleton] at hp
  obtain ⟨v, hv⟩ := hp
  have ht : actions i x t = [] := by
    rcases ht : actions i x t with _ | ⟨a, _ | ⟨b, l⟩⟩
    · rfl
    · rw [ht] at hv
      exact absurd hv (by simp)
    · rw [ht] at hv
      have := congrArg List.length hv
      simp at this
  rw [ht] at hv
  refine ⟨fun hl => ?_, fun hs => ?_, fun hl => ?_⟩
  · have := mem_actions.mpr hl
    rw [ht] at this
    exact absurd this (by simp)
  · have := mem_actions.mpr hs
    rw [ht] at this
    exact absurd this (by simp)
  · have hmem := mem_actions.mpr hl
    have htail : actions i x u ++ v = [.store] := (List.cons.inj hv).2
    have : Action.load ∈ actions i x u ++ v := List.mem_append_left _ hmem
    rw [htail] at this
    exact absurd this (by decide)

end Orderly

/-! ## What is in the cells -/

section Values

variable {overlay : ι → α → Option β} {s : State ι α β} {t : List (Event ι α)}

/-- A value a cell may have: its first one, or one that is overlaid on it. -/
def Possible (overlay : ι → α → Option β) (s : State ι α β) (x : α) (v : β) : Prop :=
  v = s.cells x ∨ ∃ i, overlay i x = some v

/-- Cells and loaded buffers have values they may have. -/
theorem Orderly.possible (h : Orderly t) :
    (∀ x, Possible overlay s x ((run overlay s t).cells x))
      ∧ ∀ i x, load i x ∈ t → Possible overlay s x ((run overlay s t).buf i x) := by
  induction t using List.reverseRecOn with
  | nil => exact ⟨fun x => Or.inl rfl, fun i x hl => absurd hl List.not_mem_nil⟩
  | append_singleton t e ih =>
    obtain ⟨hcells, hbuf⟩ := ih h.of_append
    rw [run_concat]
    obtain ⟨i, x, a⟩ := e
    cases a with
    | load =>
      refine ⟨fun y => ?_, fun j y hl => ?_⟩
      · rw [step_load_cells]
        exact hcells y
      · by_cases hjy : j = i ∧ y = x
        · obtain ⟨rfl, rfl⟩ := hjy
          rw [step_load_buf]
          cases ho : overlay j y with
          | none => exact hcells y
          | some v => exact Or.inr ⟨j, ho⟩
        · rw [step_load_buf_of_ne _ _ hjy]
          refine hbuf j y ((List.mem_append.mp hl).resolve_right fun hl' => hjy ?_)
          have he := List.mem_singleton.mp hl'
          exact ⟨congrArg Event.agent he, congrArg Event.cell he⟩
    | store =>
      have hload : load i x ∈ t := h.store_cases.1
      refine ⟨fun y => ?_, fun j y hl => ?_⟩
      · by_cases hy : y = x
        · subst hy
          rw [step_store_cells]
          exact hbuf i y hload
        · rw [step_store_cells_of_ne _ _ hy]
          exact hcells y
      · rw [step_store_buf]
        refine hbuf j y ((List.mem_append.mp hl).resolve_right fun hl' => ?_)
        exact Action.noConfusion (congrArg Event.action (List.mem_singleton.mp hl'))

/-- **A cell has its first value or an overlaid one**, at any time. -/
theorem Orderly.cells_mem (h : Orderly t) (x : α) :
    Possible overlay s x ((run overlay s t).cells x) :=
  h.possible.1 x

/-- **A cell that is not overlaid** never changes. -/
theorem Orderly.cells_eq (h : Orderly t) {x : α} (hx : ∀ i, overlay i x = none) :
    (run overlay s t).cells x = s.cells x := by
  refine (h.cells_mem x).resolve_right ?_
  rintro ⟨i, hi⟩
  rw [hx i] at hi
  cases hi

end Values

/-! ## One agent alone -/

section Alone

variable (overlay : ι → α → Option β) (s : State ι α β) (i : ι)

/-- What an agent has loaded, if nobody stores meanwhile. -/
theorem run_loads (l : List α) :
    (run overlay s (l.map (load i))).cells = s.cells
      ∧ ∀ x ∈ l, (run overlay s (l.map (load i))).buf i x = (overlay i x).getD (s.cells x) := by
  induction l using List.reverseRecOn with
  | nil => exact ⟨rfl, fun x hx => absurd hx List.not_mem_nil⟩
  | append_singleton l y ih =>
    rw [List.map_append, List.map_singleton, run_concat]
    refine ⟨ih.1, fun x hx => ?_⟩
    by_cases hxy : x = y
    · subst hxy
      rw [step_load_buf, ih.1]
    · rw [step_load_buf_of_ne _ _ fun h => hxy h.2]
      exact ih.2 x ((List.mem_append.mp hx).resolve_right fun h => hxy (List.mem_singleton.mp h))

/-- What an agent stores. -/
theorem run_stores (l : List α) (x : α) :
    (run overlay s (l.map (store i))).buf = s.buf
      ∧ (run overlay s (l.map (store i))).cells x = if x ∈ l then s.buf i x else s.cells x := by
  induction l using List.reverseRecOn with
  | nil => exact ⟨rfl, (if_neg List.not_mem_nil).symm⟩
  | append_singleton l y ih =>
    rw [List.map_append, List.map_singleton, run_concat]
    refine ⟨ih.1, ?_⟩
    by_cases hxy : x = y
    · subst hxy
      rw [step_store_cells, ih.1, if_pos (List.mem_append_right l List.mem_cons_self)]
    · rw [step_store_cells_of_ne _ _ hxy, ih.2]
      refine if_congr ⟨List.mem_append_left _, fun h => ?_⟩ rfl rfl
      exact (List.mem_append.mp h).resolve_right fun h => hxy (List.mem_singleton.mp h)

/-- **An agent alone** overlays the cells of its region. -/
theorem run_alone {l l' : List α} (hl : l.Perm l') (x : α) :
    (run overlay s (l.map (load i) ++ l'.map (store i))).cells x
      = if x ∈ l then (overlay i x).getD (s.cells x) else s.cells x := by
  obtain ⟨hcells, hbuf⟩ := run_loads overlay s i l
  rw [run_append, (run_stores overlay _ i l' x).2, hcells]
  by_cases hx : x ∈ l
  · rw [if_pos (hl.mem_iff.mp hx), if_pos hx, hbuf x hx]
  · rw [if_neg fun h => hx (hl.mem_iff.mpr h), if_neg hx]

/-- The trace of agents each of which loads its region and stores it back is orderly. -/
theorem orderly_of_regions {trace : List (Event ι α)}
    (h : ∀ i, ∃ l l' : List α, l.Nodup ∧ l'.Nodup ∧ l.Perm l'
      ∧ (trace.filter fun e => e.agent = i) = l.map (load i) ++ l'.map (store i)) :
    Orderly trace := by
  intro i x
  obtain ⟨l, l', hl, hl', hp, htrace⟩ := h i
  have hcount : ∀ (a : Action) (k : List α), k.Nodup →
      ((k.map fun y => (⟨i, y, a⟩ : Event ι α)).filter fun e => e.cell = x).map Event.action
        = if x ∈ k then [a] else [] := by
    intro a k hk
    induction k with
    | nil => rfl
    | cons y k ih =>
      obtain ⟨hy, hk⟩ := List.nodup_cons.mp hk
      rw [List.map_cons, List.filter_cons]
      by_cases hxy : y = x
      · subst hxy
        rw [if_pos (decide_eq_true rfl), List.map_cons, ih hk, if_neg hy,
          if_pos List.mem_cons_self]
      · rw [if_neg (by simpa using hxy), ih hk]
        refine if_congr ⟨List.mem_cons_of_mem y, fun hx => ?_⟩ rfl rfl
        exact (List.mem_cons.mp hx).resolve_left fun h => hxy h.symm
  have hactions : actions i x trace
      = ((l.map (load i) ++ l'.map (store i)).filter fun e => e.cell = x).map Event.action := by
    rw [← htrace, List.filter_filter, actions]
    refine congrArg _ (List.filter_congr fun e _ => ?_)
    rw [Bool.decide_and, Bool.and_comm]
  rw [hactions, List.filter_append, List.map_append, hcount .load l hl, hcount .store l' hl',
    if_congr hp.mem_iff rfl rfl]
  split
  · exact List.prefix_rfl
  · exact List.nil_prefix

end Alone

/-! ## Updates that stay -/

section Stays

variable {overlay : ι → α → Option β} {s : State ι α β} {i : ι} {x : α} {v : β}
  {t u : List (Event ι α)}

/-- Until it is stored, a cell and what the others have loaded of it are as they were. -/
theorem Orderly.before_store (hne : ∀ j, j ≠ i → overlay j x = none) (hv : overlay i x = some v)
    (h : Orderly t) (hs : store i x ∉ t) :
    (run overlay s t).cells x = s.cells x
      ∧ (load i x ∈ t → (run overlay s t).buf i x = v)
      ∧ ∀ j, j ≠ i → load j x ∈ t → (run overlay s t).buf j x = s.cells x := by
  induction t using List.reverseRecOn with
  | nil =>
    exact ⟨rfl, fun hl => absurd hl List.not_mem_nil, fun j _ hl => absurd hl List.not_mem_nil⟩
  | append_singleton t e ih =>
    obtain ⟨hcell, hown, hothers⟩ := ih h.of_append fun hs' => hs (List.mem_append_left _ hs')
    rw [run_concat]
    obtain ⟨k, y, a⟩ := e
    have hold : ∀ j, ¬(a = .load ∧ j = k ∧ x = y) → load j x ∈ t ++ [⟨k, y, a⟩] → load j x ∈ t := by
      intro j hj hl
      refine (List.mem_append.mp hl).resolve_right fun hl' => hj ?_
      have he := List.mem_singleton.mp hl'
      exact ⟨(congrArg Event.action he).symm, congrArg Event.agent he, congrArg Event.cell he⟩
    cases a with
    | load =>
      rw [step_load_cells]
      refine ⟨hcell, fun hl => ?_, fun j hj hl => ?_⟩
      · by_cases hk : i = k ∧ x = y
        · obtain ⟨rfl, rfl⟩ := hk
          rw [step_load_buf, hv]
          rfl
        · rw [step_load_buf_of_ne _ _ hk]
          exact hown (hold i (fun hc => hk hc.2) hl)
      · by_cases hk : j = k ∧ x = y
        · obtain ⟨rfl, rfl⟩ := hk
          rw [step_load_buf, hne j hj]
          exact hcell
        · rw [step_load_buf_of_ne _ _ hk]
          exact hothers j hj (hold j (fun hc => hk hc.2) hl)
    | store =>
      rw [step_store_buf]
      refine ⟨?_, fun hl => hown (hold i (fun hc => Action.noConfusion hc.1) hl),
        fun j hj hl => hothers j hj (hold j (fun hc => Action.noConfusion hc.1) hl)⟩
      by_cases hy : x = y
      · subst hy
        have hki : k ≠ i := fun hki => hs (hki ▸ List.mem_append_right t List.mem_cons_self)
        rw [step_store_cells]
        exact hothers k hki h.store_cases.1
      · rw [step_store_cells_of_ne _ _ hy]
        exact hcell

/-- What an agent has loaded is in its buffer until it loads the cell again. -/
theorem run_buf_of_no_load {j : ι} (hl : load j x ∉ u) :
    (run overlay s u).buf j x = s.buf j x := by
  induction u using List.reverseRecOn with
  | nil => rfl
  | append_singleton u e ih =>
    rw [run_concat]
    obtain ⟨k, y, a⟩ := e
    have hu : load j x ∉ u := fun h => hl (List.mem_append_left _ h)
    cases a with
    | load =>
      rw [step_load_buf_of_ne _ _ ?_, ih hu]
      rintro ⟨rfl, rfl⟩
      exact hl (List.mem_append_right _ List.mem_cons_self)
    | store =>
      rw [step_store_buf, ih hu]

/-- Behind its store an update stays, if nobody stores what it loaded in front of it. -/
theorem Orderly.after_store (hne : ∀ j, j ≠ i → overlay j x = none) (hv : overlay i x = some v)
    (h : Orderly (t ++ store i x :: u))
    (hstale : ∀ j, j ≠ i → ¬(load j x ∈ t ∧ store j x ∈ u)) :
    (run overlay s (t ++ store i x :: u)).cells x = v
      ∧ ∀ j, load j x ∈ u → (run overlay s (t ++ store i x :: u)).buf j x = v := by
  induction u using List.reverseRecOn with
  | nil =>
    obtain ⟨hload, hstore, -⟩ := h.store_cases
    refine ⟨?_, fun j hl => absurd hl List.not_mem_nil⟩
    rw [run_concat, step_store_cells]
    exact (h.of_append.before_store hne hv hstore).2.1 hload
  | append_singleton u e ih =>
    obtain ⟨-, -, hnoload, hnostore⟩ := h.store_cases
    have heq : t ++ store i x :: (u ++ [e]) = (t ++ store i x :: u) ++ [e] :=
      (List.append_assoc t (store i x :: u) [e]).symm
    rw [heq] at h ⊢
    obtain ⟨hcell, hbuf⟩ := ih h.of_append fun j hj hs =>
      hstale j hj ⟨hs.1, List.mem_append_left _ hs.2⟩
    rw [run_concat]
    obtain ⟨k, y, a⟩ := e
    cases a with
    | load =>
      refine ⟨hcell, fun j hl => ?_⟩
      by_cases hk : j = k ∧ x = y
      · obtain ⟨rfl, rfl⟩ := hk
        have hji : j ≠ i := fun hji => hnoload (hji ▸ hl)
        rw [step_load_buf, hne j hji]
        exact hcell
      · rw [step_load_buf_of_ne _ _ hk]
        refine hbuf j ((List.mem_append.mp hl).resolve_right fun hl' => hk ?_)
        have he := List.mem_singleton.mp hl'
        exact ⟨congrArg Event.agent he, congrArg Event.cell he⟩
    | store =>
      refine ⟨?_, fun j hl => ?_⟩
      · by_cases hy : x = y
        · subst hy
          have hki : k ≠ i := fun hki => hnostore (hki ▸ List.mem_append_right u List.mem_cons_self)
          -- its load is behind the store of the update
          have hload : load k x ∈ u := by
            rcases List.mem_append.mp h.store_cases.1 with hl | hl
            · exact absurd ⟨hl, List.mem_append_right u List.mem_cons_self⟩ (hstale k hki)
            · rcases List.mem_cons.mp hl with he | hl
              · exact Action.noConfusion (congrArg Event.action he)
              · exact hl
          rw [step_store_cells]
          exact hbuf k hload
        · rw [step_store_cells_of_ne _ _ hy]
          exact hcell
      · rw [step_store_buf]
        refine hbuf j ((List.mem_append.mp hl).resolve_right fun hl' => ?_)
        exact Action.noConfusion (congrArg Event.action (List.mem_singleton.mp hl'))

/-- A store of what was loaded in front of an update takes the update back. -/
theorem Orderly.stale_store (hne : ∀ j, j ≠ i → overlay j x = none) (hv : overlay i x = some v)
    {j : ι} (hj : j ≠ i) (h : Orderly (t ++ store i x :: (u ++ [store j x])))
    (hload : load j x ∈ t) :
    (run overlay s (t ++ store i x :: (u ++ [store j x]))).cells x = s.cells x := by
  have hstore := h.store_cases.2.1
  have ht : Orderly t := h.of_append
  obtain ⟨t₁, t₂, rfl⟩ := List.append_of_mem hload
  have hu : load j x ∉ store i x :: u := by
    rw [show t₁ ++ load j x :: t₂ ++ store i x :: (u ++ [store j x])
      = t₁ ++ load j x :: (t₂ ++ store i x :: (u ++ [store j x])) by simp] at h
    intro hl
    refine h.load_cases.2.2 (List.mem_append_right _ ?_)
    rw [← List.cons_append]
    exact List.mem_append_left _ hl
  rw [show t₁ ++ load j x :: t₂ ++ store i x :: (u ++ [store j x])
      = t₁ ++ load j x :: t₂ ++ (store i x :: u) ++ [store j x] by simp,
    run_concat, step_store_cells, run_append, run_buf_of_no_load hu]
  exact (ht.before_store hne hv hstore).2.2 j hj hload

/-- **When an update stays.** If only one agent overlays a cell, the cell has the new value at
any time behind its store if and only if the value is not new, or nobody else loaded the cell
in front of the store and stores it behind it. -/
theorem Orderly.stays_iff (hne : ∀ j, j ≠ i → overlay j x = none) (hv : overlay i x = some v)
    (h : Orderly (t ++ store i x :: u)) :
    (∀ u', u' <+: u → (run overlay s (t ++ store i x :: u')).cells x = v)
      ↔ v = s.cells x ∨ ∀ j, j ≠ i → ¬(load j x ∈ t ∧ store j x ∈ u) := by
  have hinit : ∀ {u'}, u' <+: u → Orderly (t ++ store i x :: u') := fun hu' =>
    h.of_prefix ((List.prefix_append_right_inj t).mpr (List.cons_prefix_cons.mpr ⟨rfl, hu'⟩))
  constructor
  · intro hstays
    refine or_iff_not_imp_left.mpr fun hnew j hj hs => hnew ?_
    obtain ⟨hload, hstore⟩ := hs
    obtain ⟨u₁, u₂, rfl⟩ := List.append_of_mem hstore
    have hp : u₁ ++ [store j x] <+: u₁ ++ store j x :: u₂ :=
      ⟨u₂, List.append_assoc u₁ [store j x] u₂⟩
    rw [← hstays _ hp]
    exact (hinit hp).stale_store hne hv hj hload
  · rintro (rfl | hstale) u' hu'
    · have hvalue : Possible overlay s x ((run overlay s (t ++ store i x :: u')).cells x) :=
        (hinit hu').cells_mem x
      rcases hvalue with hc | ⟨j, hj⟩
      · exact hc
      · by_cases hji : j = i
        · subst hji
          exact (Option.some.inj (hv.symm.trans hj)).symm
        · rw [hne j hji] at hj
          cases hj
    · exact ((hinit hu').after_store hne hv fun j hj hs =>
        hstale j hj ⟨hs.1, hu'.subset hs.2⟩).1

end Stays

end WriteBack
