import CodeTroopers.Library.InPlaceFloyd

set_option autoImplicit false

/-! # In-place Floyd–Warshall, point by point

What holds of the table while the loop is still running. `tracedLoop` is the loop that records the
table at each of its innermost points; `tracedLoop_fst` says that it computes the same.

An entry off the diagonal is not only the length of a walk: it is the length of a path
(`PathSound`), so that it stays below the number of vertices at every point. A relaxation of
`(i, j)` over `k` that changes the entry joins two paths which meet in `k` only. If they met
elsewhere, there would be a shorter way from `i` to `j` over the earlier rounds, and by `Upper` the
entry would already be smaller. Relaxations in row or column `k` change nothing, since the diagonal
is never zero. -/

namespace InPlaceFloyd

variable {V : Type}

section Tables

variable (inf : ℤ) (G : SimpleGraph V)

/-- Off the diagonal, every entry is the sentinel or the length of a path with inner vertices in
    `S`. -/
def PathSound (S : List V) (d : V → V → ℤ) : Prop :=
  ∀ p q, p ≠ q → d p q = inf ∨ ∃ w : G.Walk p q, w.IsPath ∧
    (∀ x ∈ w.support, x = p ∨ x = q ∨ x ∈ S) ∧ d p q = w.length

/-- What holds of the table at every point: an entry is the sentinel or the length of a walk with at
    least one edge, and it is bounded in the number of vertices. -/
structure PointLaw (n : ℕ) (d : V → V → ℤ) : Prop where
  sound : Sound inf G d
  offDiagonal : ∀ p q, p ≠ q → d p q ≠ inf → d p q ≤ (n : ℤ) - 1
  diagonal : ∀ p, d p p ≠ inf → d p p ≤ 2 * ((n : ℤ) - 1)

/-- The invariant of round `k`, after the rounds `S`. -/
structure RoundLaw (n : ℕ) (S : List V) (k : V) (d : V → V → ℤ) : Prop extends
    PointLaw inf G n d where
  capped : Capped inf d
  upper : Upper G S d
  paths : PathSound inf G (k :: S) d

variable {inf G}

theorem PathSound.mono {S S' : List V} {d : V → V → ℤ} (h : PathSound inf G S d)
    (hS : S ⊆ S') : PathSound inf G S' d := by
  intro p q hpq
  refine (h p q hpq).imp_right ?_
  intro hw
  obtain ⟨w, hpath, hsupport, hd⟩ := hw
  refine ⟨w, hpath, fun x hx => ?_, hd⟩
  rcases hsupport x hx with hx | hx | hx
  · exact Or.inl hx
  · exact Or.inr (Or.inl hx)
  · exact Or.inr (Or.inr (hS hx))

theorem IsInitial.pathSound {d : V → V → ℤ} (h : IsInitial inf G d) (S : List V) :
    PathSound inf G S d := by
  intro p q hpq
  by_cases hadj : G.Adj p q
  · refine Or.inr ⟨hadj.toWalk, hadj.isPath_toWalk, ?_, by simp [(h p q).1 hadj]⟩
    intro x hx
    have hx' : x = p ∨ x = q := by simpa using hx
    exact hx'.imp_right Or.inl
  · exact Or.inl ((h p q).2 hadj)

/-! ## Joining two paths -/

theorem isPath_append {i j k : V} {w₁ : G.Walk i k} {w₂ : G.Walk k j} (h₁ : w₁.IsPath)
    (h₂ : w₂.IsPath) (hmeet : ∀ x ∈ w₁.support, x ∈ w₂.support → x = k) :
    (w₁.append w₂).IsPath := by
  have hk : k ∉ w₂.support.tail := by
    have hnodup := h₂.support_nodup
    rw [← w₂.cons_tail_support, List.nodup_cons] at hnodup
    exact hnodup.1
  refine SimpleGraph.Walk.IsPath.mk' ?_
  rw [SimpleGraph.Walk.support_append, List.nodup_append]
  refine ⟨h₁.support_nodup, h₂.support_nodup.tail, ?_⟩
  rintro x hx y hy rfl
  have hxk := hmeet x hx (List.mem_of_mem_tail hy)
  rw [hxk] at hy
  exact hk hy

theorem exists_shorter {S : List V} {i j k x : V} {w₁ : G.Walk i k} {w₂ : G.Walk k j}
    (h₁ : w₁.IsPath) (h₂ : w₂.IsPath) (hS₁ : ∀ y ∈ w₁.support, y = i ∨ y = k ∨ y ∈ S)
    (hS₂ : ∀ y ∈ w₂.support, y = k ∨ y = j ∨ y ∈ S) (hx₁ : x ∈ w₁.support)
    (hx₂ : x ∈ w₂.support) (hxk : x ≠ k) :
    ∃ w : G.Walk i j, w.IsPath ∧ (∀ y ∈ w.support, y = i ∨ y = j ∨ y ∈ S) ∧
      w.length < w₁.length + w₂.length := by
  classical
  obtain ⟨u₁, v₁, hu₁, hv₁, rfl⟩ := h₁.mem_support_iff_exists_append.mp hx₁
  obtain ⟨u₂, v₂, hu₂, hv₂, rfl⟩ := h₂.mem_support_iff_exists_append.mp hx₂
  refine ⟨(u₁.append v₂).bypass, (u₁.append v₂).bypass_isPath, fun y hy => ?_, ?_⟩
  · have hy' := (u₁.append v₂).support_bypass_subset_support hy
    rcases (SimpleGraph.Walk.mem_support_append_iff u₁ v₂).mp hy' with hy₁ | hy₂
    · have hyk : y ≠ k :=
        SimpleGraph.Walk.IsPath.ne_of_mem_support_of_append h₁ hxk.symm hy₁ v₁.end_mem_support
      have := hS₁ y (SimpleGraph.Walk.support_subset_support_append_left u₁ v₁ hy₁)
      tauto
    · have hky : k ≠ y := by
        rintro rfl
        exact SimpleGraph.Walk.IsPath.ne_of_mem_support_of_append h₂ hxk.symm
          u₂.start_mem_support hy₂ rfl
      have := hS₂ y (SimpleGraph.Walk.support_subset_support_append_right u₂ v₂ hy₂)
      have hky' := hky.symm
      tauto
  · have hv₁ : v₁.length ≠ 0 := fun h => hxk (SimpleGraph.Walk.eq_of_length_eq_zero h)
    have hle := (u₁.append v₂).length_bypass_le_length
    rw [SimpleGraph.Walk.length_append] at hle ⊢
    rw [SimpleGraph.Walk.length_append]
    omega

end Tables

/-! ## One relaxation -/

section Step

variable {inf : ℤ} {G : SimpleGraph V} {n : ℕ} {S : List V} {i k : V} {d : V → V → ℤ}

theorem Sound.pos (h : Sound inf G d) {p q : V} (hpq : d p q ≠ inf) : 0 < d p q := by
  obtain ⟨w, hw, hd⟩ := (h p q).resolve_left hpq
  omega

/-- A relaxation that changes an entry off the diagonal joins two paths to a path. -/
theorem RoundLaw.exists_path (h : RoundLaw inf G n S k d) {j : V} (hij : i ≠ j) (hi : i ≠ k)
    (hj : k ≠ j) (hik : d i k ≠ inf) (hkj : d k j ≠ inf) (hlt : d i k + d k j < d i j) :
    ∃ w : G.Walk i j, w.IsPath ∧ (∀ x ∈ w.support, x = i ∨ x = j ∨ x ∈ k :: S) ∧
      d i k + d k j = w.length := by
  obtain ⟨w₁, h₁, hS₁, hd₁⟩ := (h.paths i k hi).resolve_left hik
  obtain ⟨w₂, h₂, hS₂, hd₂⟩ := (h.paths k j hj).resolve_left hkj
  have hS₁' : ∀ x ∈ w₁.support, x = i ∨ x = k ∨ x ∈ S := by
    intro x hx
    have := hS₁ x hx
    simp only [List.mem_cons] at this
    tauto
  have hS₂' : ∀ x ∈ w₂.support, x = k ∨ x = j ∨ x ∈ S := by
    intro x hx
    have := hS₂ x hx
    simp only [List.mem_cons] at this
    tauto
  -- the two paths meet in `k` only
  have hmeet : ∀ x ∈ w₁.support, x ∈ w₂.support → x = k := by
    intro x hx₁ hx₂
    by_contra hxk
    obtain ⟨w, hw, hS, hlen⟩ := exists_shorter h₁ h₂ hS₁' hS₂' hx₁ hx₂ hxk
    have hle := h.upper i j hij w hw hS
    omega
  refine ⟨w₁.append w₂, isPath_append h₁ h₂ hmeet, fun x hx => ?_, ?_⟩
  · simp only [List.mem_cons]
    rcases (SimpleGraph.Walk.mem_support_append_iff w₁ w₂).mp hx with hx | hx
    · have := hS₁' x hx
      tauto
    · have := hS₂' x hx
      tauto
  · rw [hd₁, hd₂, SimpleGraph.Walk.length_append]
    push_cast
    rfl

variable [DecidableEq V]

/-- A changed entry has become the sum of two others, neither of them in its place. -/
theorem relaxCell_cases (h : Sound inf G d) (hik : d i k ≠ inf) (j a b : V) :
    relaxCell inf k i d j a b = d a b ∨
      (a = i ∧ b = j ∧ i ≠ k ∧ k ≠ j ∧ d k j ≠ inf ∧ d i k + d k j < d i j ∧
        relaxCell inf k i d j a b = d i k + d k j) := by
  unfold relaxCell
  split_ifs with hkj
  · exact Or.inl rfl
  · unfold update
    split_ifs with hab
    · obtain ⟨rfl, rfl⟩ := hab
      rcases le_or_gt (d a b) (d a k + d k b) with hle | hlt
      · exact Or.inl (min_eq_left hle)
      · -- in row or column `k` the sum is the entry and something positive
        refine Or.inr ⟨rfl, rfl, ?_, ?_, hkj, hlt, min_eq_right hlt.le⟩
        · rintro rfl
          have := h.pos hik
          omega
        · rintro rfl
          have := h.pos hkj
          omega
    · exact Or.inl rfl

/-- **One relaxation keeps the law.** -/
theorem RoundLaw.relaxCell (h : RoundLaw inf G n S k d) {vs : List V}
    (hvs : ∀ p q, G.Adj p q → p ∈ vs) (hn : vs.length = n) (hik : d i k ≠ inf) (j : V) :
    RoundLaw inf G n S k (relaxCell inf k i d j) where
  sound := h.sound.relaxCell hik j
  capped a b := (relaxCell_le inf k i j d a b).trans (h.capped a b)
  upper := h.upper.mono (relaxCell_le inf k i j d)
  paths p q hpq := by
    rcases relaxCell_cases h.sound hik j p q with heq | ⟨rfl, rfl, hi, hj, hkj, hlt, heq⟩
    · rw [heq]
      exact h.paths p q hpq
    · rw [heq]
      exact Or.inr (h.exists_path hpq hi hj hik hkj hlt)
  offDiagonal p q hpq hne := by
    rcases relaxCell_cases h.sound hik j p q with heq | ⟨rfl, rfl, hi, hj, hkj, hlt, heq⟩
    · rw [heq] at hne ⊢
      exact h.offDiagonal p q hpq hne
    · obtain ⟨w, hw, _, hlen⟩ := h.exists_path hpq hi hj hik hkj hlt
      have hpos : w.length ≠ 0 := fun h0 => hpq (SimpleGraph.Walk.eq_of_length_eq_zero h0)
      have := (length_lt_of_isPath hvs w hw).resolve_right hpos
      omega
  diagonal p hne := by
    rcases relaxCell_cases h.sound hik j p p with heq | ⟨rfl, rfl, hi, hj, hkj, _, heq⟩
    · rw [heq] at hne ⊢
      exact h.diagonal p hne
    · have h₁ := h.offDiagonal p k hi hik
      have h₂ := h.offDiagonal k p hj hkj
      omega

end Step

/-! ## The loop with its points -/

/-- A point of the innermost loop, with the table as it is there. -/
structure Visit (V T : Type) where
  k : V
  i : V
  j : V
  table : T

/-- The tables of a run: the one it has arrived at and those at its points, the latest first. -/
def tables {T : Type} (s : T × List (Visit V T)) : List T := s.1 :: s.2.map Visit.table

section Traced

variable [DecidableEq V]

/-- A table and the points the loop has passed, the latest first. -/
abbrev Trace (V : Type) := (V → V → ℤ) × List (Visit V (V → V → ℤ))

/-- `relaxCell`, noting the point. -/
def tracedCell (inf : ℤ) (k i : V) (s : Trace V) (j : V) : Trace V :=
  (relaxCell inf k i s.1 j, ⟨k, i, j, s.1⟩ :: s.2)

/-- `relaxRow`, noting its points. -/
def tracedRow (inf : ℤ) (vs : List V) (k : V) (s : Trace V) (i : V) : Trace V :=
  if s.1 i k = inf then s else vs.foldl (tracedCell inf k i) s

/-- `relaxRound`, noting its points. -/
def tracedRound (inf : ℤ) (vs : List V) (s : Trace V) (k : V) : Trace V :=
  vs.foldl (tracedRow inf vs k) s

/-- `floydLoop`, noting its points. -/
def tracedLoop (inf : ℤ) (vs : List V) (s : Trace V) : Trace V := vs.foldl (tracedRound inf vs) s

theorem tracedRow_fst (inf : ℤ) (vs : List V) (k : V) (s : Trace V) (i : V) :
    (tracedRow inf vs k s i).1 = relaxRow inf vs k s.1 i := by
  unfold tracedRow relaxRow
  split_ifs
  · rfl
  · exact (List.foldl_hom Prod.fst fun _ _ => rfl).symm

theorem tracedRound_fst (inf : ℤ) (vs : List V) (s : Trace V) (k : V) :
    (tracedRound inf vs s k).1 = relaxRound inf vs s.1 k :=
  (List.foldl_hom Prod.fst fun s i => (tracedRow_fst inf vs k s i).symm).symm

/-- Noting the points changes nothing. -/
theorem tracedLoop_fst (inf : ℤ) (vs : List V) (s : Trace V) :
    (tracedLoop inf vs s).1 = floydLoop inf vs s.1 :=
  (List.foldl_hom Prod.fst fun s k => (tracedRound_fst inf vs s k).symm).symm

variable {inf : ℤ} {G : SimpleGraph V} {n : ℕ}

variable (inf G n) in
/-- The law at every point passed: the table is as it should be, the entry that guards the row is
    off the sentinel, and the tables only decrease. -/
structure PointsLaw (s : Trace V) : Prop where
  visits : ∀ v ∈ s.2, PointLaw inf G n v.table ∧ v.table v.i v.k ≠ inf
  descending : (tables s).Pairwise fun later earlier => ∀ a b, later a b ≤ earlier a b

theorem PointsLaw.tracedCell {s : Trace V} (h : PointsLaw inf G n s)
    (hpoint : PointLaw inf G n s.1) {k i : V} (hik : s.1 i k ≠ inf) (j : V) :
    PointsLaw inf G n (tracedCell inf k i s j) where
  visits := List.forall_mem_cons.mpr ⟨⟨hpoint, hik⟩, h.visits⟩
  descending := by
    have hle := relaxCell_le inf k i j s.1
    obtain ⟨hfirst, _⟩ := List.pairwise_cons.mp h.descending
    refine List.pairwise_cons.mpr ⟨List.forall_mem_cons.mpr ⟨hle, fun d hd a b => ?_⟩, h.descending⟩
    exact (hle a b).trans (hfirst d hd a b)

variable {vs : List V} (hvs : ∀ p q, G.Adj p q → p ∈ vs) (hn : vs.length = n)

include hvs hn

theorem PointsLaw.tracedRow {S : List V} {k : V} {s : Trace V} (h : PointsLaw inf G n s)
    (hround : RoundLaw inf G n S k s.1) (i : V) :
    RoundLaw inf G n S k (tracedRow inf vs k s i).1 ∧
      PointsLaw inf G n (tracedRow inf vs k s i) := by
  unfold InPlaceFloyd.tracedRow
  split_ifs with hik
  · exact ⟨hround, h⟩
  · -- the entry that guards the row stays off the sentinel
    have hrow : (RoundLaw inf G n S k (vs.foldl (InPlaceFloyd.tracedCell inf k i) s).1 ∧
        PointsLaw inf G n (vs.foldl (InPlaceFloyd.tracedCell inf k i) s)) ∧
        (vs.foldl (InPlaceFloyd.tracedCell inf k i) s).1 i k < inf := by
      refine List.foldlRecOn vs _ (motive := fun s => (RoundLaw inf G n S k s.1 ∧
        PointsLaw inf G n s) ∧ s.1 i k < inf)
        ⟨⟨hround, h⟩, lt_of_le_of_ne (hround.capped i k) hik⟩ ?_
      intro s hs j _
      obtain ⟨⟨hround, h⟩, hlt⟩ := hs
      exact ⟨⟨hround.relaxCell hvs hn hlt.ne j, h.tracedCell hround.toPointLaw hlt.ne j⟩,
        (relaxCell_le inf k i j s.1 i k).trans_lt hlt⟩
    exact hrow.1

theorem PointsLaw.tracedRound {S : List V} {k : V} {s : Trace V} (h : PointsLaw inf G n s)
    (hround : RoundLaw inf G n S k s.1) :
    RoundLaw inf G n S k (tracedRound inf vs s k).1 ∧
      PointsLaw inf G n (tracedRound inf vs s k) := by
  refine List.foldlRecOn vs _ (motive := fun s => RoundLaw inf G n S k s.1 ∧
    PointsLaw inf G n s) ⟨hround, h⟩ ?_
  intro s hs i _
  exact hs.2.tracedRow hvs hn hs.1 i

theorem PointsLaw.foldl_tracedRound (hbig : PathsBelow inf G) (l S : List V) {s : Trace V}
    (h : PointsLaw inf G n s) (hpoint : PointLaw inf G n s.1)
    (hround : ∀ k, RoundLaw inf G n S k s.1) :
    PointLaw inf G n (l.foldl (InPlaceFloyd.tracedRound inf vs) s).1 ∧
      PointsLaw inf G n (l.foldl (InPlaceFloyd.tracedRound inf vs) s) := by
  induction l generalizing S s with
  | nil => exact ⟨hpoint, h⟩
  | cons k l ih =>
      obtain ⟨hround', h'⟩ := h.tracedRound hvs hn (hround k)
      refine ih (k :: S) h' hround'.toPointLaw fun k' => ?_
      refine { hround' with upper := ?_, paths := hround'.paths.mono (List.subset_cons_self _ _) }
      rw [tracedRound_fst]
      exact (hround k).upper.relaxRound hbig hvs

omit [DecidableEq V] in
theorem IsInitial.pointLaw {d : V → V → ℤ} (hinit : IsInitial inf G d) : PointLaw inf G n d where
  sound := hinit.sound
  offDiagonal p q hpq hne := by
    have hadj : G.Adj p q := by
      by_contra hnot
      exact hne ((hinit p q).2 hnot)
    have htwo := length_lt_of_isPath hvs hadj.toWalk hadj.isPath_toWalk
    rw [(hinit p q).1 hadj]
    simp only [SimpleGraph.Adj.length_toWalk] at htwo
    omega
  diagonal p hne := absurd ((hinit p p).2 (G.loopless.irrefl p)) hne

/-- **The law of the loop**: it holds of every table the loop goes through and of the one it ends
    with. -/
theorem pointsLaw_tracedLoop {d : V → V → ℤ} (hinit : IsInitial inf G d)
    (hinf : (vs.length : ℤ) < inf) (hone : 1 ≤ inf) :
    PointLaw inf G n (tracedLoop inf vs (d, [])).1 ∧
      PointsLaw inf G n (tracedLoop inf vs (d, [])) := by
  refine PointsLaw.foldl_tracedRound hvs hn (pathsBelow hvs hinf) vs [] ?_ ?_ ?_
  · exact ⟨by simp, List.pairwise_singleton ..⟩
  · exact hinit.pointLaw hvs hn
  · intro k
    exact { hinit.pointLaw hvs hn with
      capped := hinit.capped hone, upper := hinit.upper, paths := hinit.pathSound [k] }

end Traced

end InPlaceFloyd
