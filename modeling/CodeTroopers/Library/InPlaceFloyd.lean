import Mathlib.Combinatorics.SimpleGraph.Metric
import Mathlib.Tactic.Ring

set_option autoImplicit false

/-! # In-place Floyd–Warshall with a sentinel

All-pairs shortest paths of a `SimpleGraph`, computed in place on a table whose entry `inf` stands
for "no path known": every entry on which a relaxation depends is read as the loop left it, a row
is skipped when its entry is the sentinel, and the diagonal is never initialised to `0`.

* `Sound`: every entry is the sentinel or the length of a walk with at least one edge.
* `Upper S`: an entry off the diagonal is at most the length of every path whose inner vertices
  lie in `S`.

Relaxations never increase an entry, so `Upper S` survives all of round `k` whatever order its
relaxations come in; the relaxation of `(i, j)` itself adds the paths through `k`. Since no path
off the diagonal uses a diagonal entry, nothing is asked of the diagonal. The result is
`floydLoop_eq_dist` and `floydLoop_eq_inf`: the graph distance between distinct connected
vertices, and the sentinel between unconnected ones. -/

namespace InPlaceFloyd

variable {V : Type}

/-! ## What a table says about the graph -/

section Tables

variable (inf : ℤ) (G : SimpleGraph V)

/-- Every entry is the sentinel or the length of a walk with at least one edge. -/
def Sound (d : V → V → ℤ) : Prop :=
  ∀ p q, d p q = inf ∨ ∃ w : G.Walk p q, 0 < w.length ∧ d p q = w.length

/-- No entry exceeds the sentinel. -/
def Capped (d : V → V → ℤ) : Prop := ∀ a b, d a b ≤ inf

/-- Off the diagonal, an entry is at most the length of every path with inner vertices in `S`. -/
def Upper (S : List V) (d : V → V → ℤ) : Prop :=
  ∀ p q, p ≠ q → ∀ w : G.Walk p q, w.IsPath → (∀ x ∈ w.support, x = p ∨ x = q ∨ x ∈ S) →
    d p q ≤ w.length

/-- What round `k` adds for `(i, j)`: the paths that meet `k` once. -/
def Through (S : List V) (k i j : V) (d : V → V → ℤ) : Prop :=
  ∀ (w₁ : G.Walk i k) (w₂ : G.Walk k j), w₁.IsPath → w₂.IsPath →
    (∀ x ∈ w₁.support, x = i ∨ x = k ∨ x ∈ S) → (∀ x ∈ w₂.support, x = k ∨ x = j ∨ x ∈ S) →
    d i j ≤ w₁.length + w₂.length

/-- The sentinel is larger than every path. -/
def PathsBelow : Prop := ∀ p q, ∀ w : G.Walk p q, w.IsPath → (w.length : ℤ) < inf

/-- The table before the first round: `1` between neighbours, the sentinel elsewhere. -/
def IsInitial (d : V → V → ℤ) : Prop :=
  ∀ p q, (G.Adj p q → d p q = 1) ∧ (¬ G.Adj p q → d p q = inf)

variable {inf G}

theorem Upper.mono {S : List V} {d d' : V → V → ℤ} (h : Upper G S d)
    (hle : ∀ a b, d' a b ≤ d a b) : Upper G S d' :=
  fun p q hpq w hw hS => (hle p q).trans (h p q hpq w hw hS)

theorem Through.mono {S : List V} {k i j : V} {d d' : V → V → ℤ} (h : Through G S k i j d)
    (hle : ∀ a b, d' a b ≤ d a b) : Through G S k i j d' :=
  fun w₁ w₂ h₁ h₂ hS₁ hS₂ => (hle i j).trans (h w₁ w₂ h₁ h₂ hS₁ hS₂)

theorem IsInitial.sound {d : V → V → ℤ} (h : IsInitial inf G d) : Sound inf G d := by
  intro p q
  by_cases hadj : G.Adj p q
  · exact Or.inr ⟨hadj.toWalk, by simp, by simp [(h p q).1 hadj]⟩
  · exact Or.inl ((h p q).2 hadj)

theorem IsInitial.capped {d : V → V → ℤ} (h : IsInitial inf G d) (hinf : 1 ≤ inf) :
    Capped inf d := by
  intro p q
  by_cases hadj : G.Adj p q
  · rw [(h p q).1 hadj]
    exact hinf
  · exact ((h p q).2 hadj).le

theorem IsInitial.upper {d : V → V → ℤ} (h : IsInitial inf G d) : Upper G [] d := by
  intro p q hpq w hw hS
  cases w with
  | nil => exact absurd rfl hpq
  | @cons _ r _ hadj w' =>
      have hr : r = p ∨ r = q := by
        simpa using hS r (by simp)
      rcases hr with rfl | rfl
      · exact absurd hadj (G.loopless.irrefl r)
      · rw [(h p r).1 hadj]
        simp

/-- The endpoints of a walk between distinct vertices lie in a list that holds every vertex with
    a neighbour. -/
theorem mem_of_walk {vs : List V} (hvs : ∀ p q, G.Adj p q → p ∈ vs) {p q : V} (hpq : p ≠ q)
    (w : G.Walk p q) : p ∈ vs ∧ q ∈ vs := by
  have hstart : ∀ {a b : V}, a ≠ b → G.Walk a b → a ∈ vs := by
    intro a b hab w
    cases w with
    | nil => exact absurd rfl hab
    | cons h _ => exact hvs _ _ h
  exact ⟨hstart hpq w, hstart hpq.symm w.reverse⟩

theorem support_subset {vs : List V} (hvs : ∀ p q, G.Adj p q → p ∈ vs) {p q : V} (hpq : p ≠ q)
    (w : G.Walk p q) : w.support ⊆ vs := by
  intro x hx
  obtain ⟨w₁, _, _⟩ := SimpleGraph.Walk.mem_support_iff_exists_append.mp hx
  by_cases hpx : p = x
  · subst hpx
    exact (mem_of_walk hvs hpq w).1
  · exact (mem_of_walk hvs hpx w₁).2

theorem length_lt_of_isPath {vs : List V} (hvs : ∀ p q, G.Adj p q → p ∈ vs) {p q : V}
    (w : G.Walk p q) (hw : w.IsPath) : w.length < vs.length ∨ w.length = 0 := by
  by_cases hpq : p = q
  · subst hpq
    rw [SimpleGraph.Walk.isPath_iff_nil, ← SimpleGraph.Walk.length_eq_zero_iff] at hw
    exact Or.inr hw
  · have hle : w.support.length ≤ vs.length :=
      (List.subperm_of_subset hw.support_nodup (support_subset hvs hpq w)).length_le
    rw [SimpleGraph.Walk.length_support] at hle
    exact Or.inl hle

/-- A sentinel that is larger than such a list is larger than every path. -/
theorem pathsBelow {vs : List V} (hvs : ∀ p q, G.Adj p q → p ∈ vs)
    (hinf : (vs.length : ℤ) < inf) : PathsBelow inf G := by
  intro a b w hw
  rcases length_lt_of_isPath hvs w hw with h | h <;> omega

end Tables

/-! ## The loops -/

variable [DecidableEq V]

/-- `d i j := v`. -/
def update (d : V → V → ℤ) (i j : V) (v : ℤ) : V → V → ℤ :=
  fun a b => if a = i ∧ b = j then v else d a b

/-- One relaxation of `(i, j)` over `k`, skipped when `k` does not reach `j`. -/
def relaxCell (inf : ℤ) (k i : V) (d : V → V → ℤ) (j : V) : V → V → ℤ :=
  if d k j = inf then d else update d i j (min (d i j) (d i k + d k j))

/-- The relaxations of row `i` over `k`, skipped when `i` does not reach `k`. -/
def relaxRow (inf : ℤ) (vs : List V) (k : V) (d : V → V → ℤ) (i : V) : V → V → ℤ :=
  if d i k = inf then d else vs.foldl (relaxCell inf k i) d

/-- Round `k`: every row over `k`. -/
def relaxRound (inf : ℤ) (vs : List V) (d : V → V → ℤ) (k : V) : V → V → ℤ :=
  vs.foldl (relaxRow inf vs k) d

/-- All rounds, in the order of the vertex list. -/
def floydLoop (inf : ℤ) (vs : List V) (d : V → V → ℤ) : V → V → ℤ :=
  vs.foldl (relaxRound inf vs) d

variable (inf : ℤ) (vs : List V)

/-! ## Entries never increase -/

theorem relaxCell_le (k i j : V) (d : V → V → ℤ) (a b : V) :
    relaxCell inf k i d j a b ≤ d a b := by
  unfold relaxCell
  split_ifs
  · exact le_refl _
  · unfold update
    split_ifs with hab
    · obtain ⟨rfl, rfl⟩ := hab
      exact min_le_left _ _
    · exact le_refl _

omit [DecidableEq V] in
theorem foldl_le {α : Type} (f : (V → V → ℤ) → α → V → V → ℤ)
    (hf : ∀ d x a b, f d x a b ≤ d a b) (l : List α) (d : V → V → ℤ) (a b : V) :
    l.foldl f d a b ≤ d a b := by
  induction l generalizing d with
  | nil => exact le_refl _
  | cons x l ih => exact (ih (f d x)).trans (hf d x a b)

theorem relaxRow_le (k i : V) (d : V → V → ℤ) (a b : V) :
    relaxRow inf vs k d i a b ≤ d a b := by
  unfold relaxRow
  split_ifs
  · exact le_refl _
  · exact foldl_le _ (fun d j => relaxCell_le inf k i j d) vs d a b

theorem relaxRound_le (k : V) (d : V → V → ℤ) (a b : V) :
    relaxRound inf vs d k a b ≤ d a b :=
  foldl_le _ (fun d i => relaxRow_le inf vs k i d) vs d a b

/-! ## Every entry is the sentinel or the length of a walk -/

variable {inf vs} {G : SimpleGraph V}

theorem Sound.relaxCell {d : V → V → ℤ} (h : Sound inf G d) {k i : V} (hik : d i k ≠ inf)
    (j : V) : Sound inf G (relaxCell inf k i d j) := by
  intro a b
  unfold InPlaceFloyd.relaxCell
  split_ifs with hkj
  · exact h a b
  · unfold update
    split_ifs with hab
    · obtain ⟨rfl, rfl⟩ := hab
      obtain ⟨w₁, hw₁, h₁⟩ := (h a k).resolve_left hik
      obtain ⟨w₂, hw₂, h₂⟩ := (h k b).resolve_left hkj
      -- the entry keeps its walk, or takes the one through `k`
      rcases le_total (d a b) (d a k + d k b) with hle | hle
      · rw [min_eq_left hle]
        exact h a b
      · rw [min_eq_right hle]
        refine Or.inr ⟨w₁.append w₂, ?_, ?_⟩
        · rw [SimpleGraph.Walk.length_append]
          omega
        · rw [h₁, h₂, SimpleGraph.Walk.length_append]
          push_cast
          ring
    · exact h a b

/-- Within a row, the entry `d i k` that guards it stays off the sentinel. -/
theorem Sound.foldl_relaxCell {k i : V} (l : List V) {d : V → V → ℤ} (h : Sound inf G d)
    (hik : d i k < inf) : Sound inf G (l.foldl (InPlaceFloyd.relaxCell inf k i) d) := by
  induction l generalizing d with
  | nil => exact h
  | cons j l ih =>
      exact ih (h.relaxCell hik.ne j) ((relaxCell_le inf k i j d i k).trans_lt hik)

theorem Sound.relaxRow {d : V → V → ℤ} (h : Sound inf G d) (hcap : Capped inf d) (k i : V) :
    Sound inf G (relaxRow inf vs k d i) := by
  unfold InPlaceFloyd.relaxRow
  split_ifs with hik
  · exact h
  · exact h.foldl_relaxCell vs (lt_of_le_of_ne (hcap i k) hik)

theorem Sound.foldl_relaxRow {k : V} (l : List V) {d : V → V → ℤ} (h : Sound inf G d)
    (hcap : Capped inf d) : Sound inf G (l.foldl (InPlaceFloyd.relaxRow inf vs k) d) := by
  induction l generalizing d with
  | nil => exact h
  | cons i l ih =>
      exact ih (h.relaxRow hcap k i) fun a b => (relaxRow_le inf vs k i d a b).trans (hcap a b)

theorem Sound.foldl_relaxRound (l : List V) {d : V → V → ℤ} (h : Sound inf G d)
    (hcap : Capped inf d) : Sound inf G (l.foldl (relaxRound inf vs) d) := by
  induction l generalizing d with
  | nil => exact h
  | cons k l ih =>
      exact ih (h.foldl_relaxRow vs hcap) fun a b =>
        (relaxRound_le inf vs k d a b).trans (hcap a b)

/-! ## Entries are at most the paths over the rounds done -/

/-- Relaxing `(i, j)` over `k` establishes `Through` for `(i, j)`: its guard cannot be the
    sentinel, which is larger than every path. -/
theorem through_relaxCell {S : List V} {d : V → V → ℤ} (hU : Upper G S d)
    (hbig : PathsBelow inf G) {k i j : V} (hik : i ≠ k) (hkj : k ≠ j) :
    Through G S k i j (relaxCell inf k i d j) := by
  intro w₁ w₂ h₁ h₂ hS₁ hS₂
  have hle₁ : d i k ≤ w₁.length := hU i k hik w₁ h₁ hS₁
  have hle₂ : d k j ≤ w₂.length := hU k j hkj w₂ h₂ hS₂
  have hlt : d k j ≠ inf := (hle₂.trans_lt (hbig k j w₂ h₂)).ne
  have hval : relaxCell inf k i d j i j = min (d i j) (d i k + d k j) := by
    simp [relaxCell, update, hlt]
  rw [hval]
  exact (min_le_right _ _).trans (add_le_add hle₁ hle₂)

/-- A row of round `k` establishes `Through` for each of its cells. -/
theorem through_foldl_relaxCell {S : List V} {k i : V} (hbig : PathsBelow inf G) (hik : i ≠ k)
    (l : List V) {d : V → V → ℤ} (hU : Upper G S d) :
    ∀ j ∈ l, k ≠ j → Through G S k i j (l.foldl (relaxCell inf k i) d) := by
  induction l generalizing d with
  | nil => simp
  | cons j₀ l ih =>
      have hU' : Upper G S (relaxCell inf k i d j₀) := hU.mono (relaxCell_le inf k i j₀ d)
      intro j hj hkj
      rcases List.mem_cons.mp hj with rfl | hj
      · exact (through_relaxCell hU hbig hik hkj).mono
          (foldl_le _ (fun d j => relaxCell_le inf k i j d) l _)
      · exact ih hU' j hj hkj

theorem through_relaxRow {S : List V} {k i : V} (hbig : PathsBelow inf G) (hik : i ≠ k)
    {d : V → V → ℤ} (hU : Upper G S d) :
    ∀ j ∈ vs, k ≠ j → Through G S k i j (relaxRow inf vs k d i) := by
  intro j hj hkj
  unfold relaxRow
  split_ifs with hinf
  · -- the row is skipped: then no path leads from `i` to `k` over `S`
    intro w₁ w₂ h₁ _ hS₁ _
    have hle : d i k ≤ w₁.length := hU i k hik w₁ h₁ hS₁
    exact absurd hinf (hle.trans_lt (hbig i k w₁ h₁)).ne
  · exact through_foldl_relaxCell hbig hik vs hU j hj hkj

theorem through_foldl_relaxRow {S : List V} {k : V} (hbig : PathsBelow inf G) (l : List V)
    {d : V → V → ℤ} (hU : Upper G S d) :
    ∀ i ∈ l, i ≠ k → ∀ j ∈ vs, k ≠ j → Through G S k i j (l.foldl (relaxRow inf vs k) d) := by
  induction l generalizing d with
  | nil => simp
  | cons i₀ l ih =>
      have hU' : Upper G S (relaxRow inf vs k d i₀) := hU.mono (relaxRow_le inf vs k i₀ d)
      intro i hi hik j hj hkj
      rcases List.mem_cons.mp hi with rfl | hi
      · exact (through_relaxRow hbig hik hU j hj hkj).mono
          (foldl_le _ (fun d i => relaxRow_le inf vs k i d) l _)
      · exact ih hU' i hi hik j hj hkj

theorem Upper.relaxRound {S : List V} {k : V} {d : V → V → ℤ} (hU : Upper G S d)
    (hbig : PathsBelow inf G) (hvs : ∀ p q, G.Adj p q → p ∈ vs) :
    Upper G (k :: S) (relaxRound inf vs d k) := by
  intro p q hpq w hw hS
  obtain ⟨hp, hq⟩ := mem_of_walk hvs hpq w
  -- a path over `k :: S` is cut at `k` into two paths over `S`, unless it does not pass `k`
  by_cases hk : k ∈ w.support ∧ p ≠ k ∧ k ≠ q
  · obtain ⟨hk, hpk, hkq⟩ := hk
    obtain ⟨w₁, w₂, h₁, h₂, rfl⟩ := hw.mem_support_iff_exists_append.mp hk
    have hS₁ : ∀ x ∈ w₁.support, x = p ∨ x = k ∨ x ∈ S := by
      intro x hx
      have hxq : x ≠ q :=
        SimpleGraph.Walk.IsPath.ne_of_mem_support_of_append hw hkq.symm hx w₂.end_mem_support
      have hx' := hS x (SimpleGraph.Walk.support_subset_support_append_left w₁ w₂ hx)
      simp only [List.mem_cons] at hx'
      tauto
    have hS₂ : ∀ x ∈ w₂.support, x = k ∨ x = q ∨ x ∈ S := by
      intro x hx
      have hx' := hS x (SimpleGraph.Walk.support_subset_support_append_right w₁ w₂ hx)
      by_cases hxk : x = k
      · exact Or.inl hxk
      · have hxp : p ≠ x :=
          SimpleGraph.Walk.IsPath.ne_of_mem_support_of_append hw hxk w₁.start_mem_support hx
        simp only [List.mem_cons] at hx'
        tauto
    have hthrough := through_foldl_relaxRow hbig vs hU p hp hpk q hq hkq w₁ w₂ h₁ h₂ hS₁ hS₂
    rw [SimpleGraph.Walk.length_append]
    push_cast
    exact hthrough
  · -- `k` is no inner vertex of the path
    refine (hU.mono (relaxRound_le inf vs k d)) p q hpq w hw ?_
    intro x hx
    have hx' := hS x hx
    simp only [List.mem_cons] at hx'
    rcases hx' with h | h | rfl | h
    · exact Or.inl h
    · exact Or.inr (Or.inl h)
    · by_cases hpx : p = x
      · exact Or.inl hpx.symm
      · by_cases hxq : x = q
        · exact Or.inr (Or.inl hxq)
        · exact absurd ⟨hx, hpx, hxq⟩ hk
    · exact Or.inr (Or.inr h)

theorem Upper.foldl_relaxRound (hbig : PathsBelow inf G) (hvs : ∀ p q, G.Adj p q → p ∈ vs)
    (l S : List V) {d : V → V → ℤ} (hU : Upper G S d) :
    Upper G (l.reverse ++ S) (l.foldl (InPlaceFloyd.relaxRound inf vs) d) := by
  induction l generalizing S d with
  | nil => exact hU
  | cons k l ih =>
      simpa using ih (k :: S) (hU.relaxRound hbig hvs)

/-! ## The table after all rounds -/

section Result

variable {d : V → V → ℤ} (hinit : IsInitial inf G d) (hinf : (vs.length : ℤ) < inf)

include hinit hinf

theorem sound_floydLoop : Sound inf G (floydLoop inf vs d) := by
  by_cases hne : vs = []
  · subst hne
    exact hinit.sound
  · have := List.length_pos_of_ne_nil hne
    exact hinit.sound.foldl_relaxRound vs (hinit.capped (by omega))

/-- **Unconnected vertices hold the sentinel.** -/
theorem floydLoop_eq_inf {p q : V} (hr : ¬ G.Reachable p q) : floydLoop inf vs d p q = inf :=
  (sound_floydLoop hinit hinf p q).resolve_right fun ⟨w, _, _⟩ => hr ⟨w⟩

/-- **Distinct connected vertices hold their distance.** -/
theorem floydLoop_eq_dist (hvs : ∀ p q, G.Adj p q → p ∈ vs) {p q : V} (hpq : p ≠ q)
    (hr : G.Reachable p q) : floydLoop inf vs d p q = G.dist p q := by
  have hbig : PathsBelow inf G := pathsBelow hvs hinf
  -- a shortest path is over the vertices of all rounds
  obtain ⟨w, hw, hlen⟩ := hr.exists_path_of_dist
  have hle : floydLoop inf vs d p q ≤ G.dist p q := by
    rw [← hlen]
    refine hinit.upper.foldl_relaxRound hbig hvs vs [] p q hpq w hw ?_
    intro x hx
    exact Or.inr (Or.inr (by simpa using support_subset hvs hpq w hx))
  have hsound : Sound inf G (floydLoop inf vs d) := sound_floydLoop hinit hinf
  rcases hsound p q with h | ⟨w', _, h⟩
  · have := hbig p q w hw
    omega
  · have := G.dist_le w'
    omega

/-- The round of a neighbour relaxes the diagonal over it. -/
theorem floydLoop_self_le_two (hvs : ∀ p q, G.Adj p q → p ∈ vs) {p q : V} (hpq : G.Adj p q) :
    floydLoop inf vs d p p ≤ 2 := by
  have hbig : PathsBelow inf G := pathsBelow hvs hinf
  obtain ⟨before, after, hsplit⟩ := List.append_of_mem (hvs q p hpq.symm)
  have hU := hinit.upper.foldl_relaxRound hbig hvs before []
  have hround : relaxRound inf vs (before.foldl (relaxRound inf vs) d) q p p ≤ 2 :=
    through_foldl_relaxRow hbig vs hU p (hvs p q hpq) hpq.ne p (hvs p q hpq) hpq.symm.ne
      hpq.toWalk hpq.symm.toWalk hpq.isPath_toWalk hpq.symm.isPath_toWalk (by simp) (by simp)
  -- the later rounds do not increase it
  have hloop := congrArg (fun l => l.foldl (relaxRound inf vs) d) hsplit
  simp only [List.foldl_append, List.foldl_cons] at hloop
  rw [floydLoop, hloop]
  exact (foldl_le (relaxRound inf vs) (fun d k => relaxRound_le inf vs k d) after _ p p).trans
    hround

/-- **The diagonal** is never initialised: a vertex with a neighbour holds the way there and
back. -/
theorem floydLoop_self_eq_two (hvs : ∀ p q, G.Adj p q → p ∈ vs) {p q : V} (hpq : G.Adj p q) :
    floydLoop inf vs d p p = 2 := by
  have hle := floydLoop_self_le_two hinit hinf hvs hpq
  have hsound : Sound inf G (floydLoop inf vs d) := sound_floydLoop hinit hinf
  -- the sentinel exceeds the number of vertices
  have htwo : 2 ≤ vs.length := by
    have hne : [p, q].Nodup := by simp [hpq.ne]
    have hsub : [p, q] ⊆ vs := by simp [hvs p q hpq, hvs q p hpq.symm]
    exact (List.subperm_of_subset hne hsub).length_le
  rcases hsound p p with h | ⟨w, hw, h⟩
  · omega
  · -- a closed walk has at least two edges
    cases w with
    | nil => simp at hw
    | cons hadj w' =>
        cases w' with
        | nil => exact absurd hadj (G.loopless.irrefl p)
        | cons _ w'' =>
            simp only [SimpleGraph.Walk.length_cons] at h
            omega

theorem floydLoop_self_eq_inf {p : V} (hp : ∀ q, ¬ G.Adj p q) :
    floydLoop inf vs d p p = inf := by
  refine (sound_floydLoop hinit hinf p p).resolve_right fun ⟨w, hw, _⟩ => ?_
  cases w with
  | nil => simp at hw
  | cons hadj _ => exact hp _ hadj

end Result

end InPlaceFloyd
