import Mathlib
import Intake.Aggregate.Row

/-!
# Rows are totals of their updates

`totals_in_any_order`: the rows that a list of updates builds hold the exact sums of its counts, the
newest of its instants, and the sum of its dwells as far as 64 bits go. Updates of one video and one
day build the same rows in every order.

Counts may be of either sign, so they have to stay within 64 bits however the updates come
(`NeverOverflows`). Dwells need no such care but must not be negative: a sum that has stopped at the
greatest number stays there, which is where the whole sum stops too.
-/

namespace Intake.Aggregate

variable {figure : Update → Int64} {us vs ws : List Update} {u : Update} {a : Int64}

/-- The exact sum of a figure of the updates. -/
def total (figure : Update → Int64) (us : List Update) : Int :=
  (us.map fun u => (figure u).toInt).sum

theorem total_concat : total figure (us ++ [u]) = total figure us + (figure u).toInt := by
  simp [total]

theorem total_singleton (figure : Update → Int64) (u : Update) :
    total figure [u] = (figure u).toInt := by
  simp [total]

theorem total_perm (h : vs.Perm us) : total figure vs = total figure us := (h.map _).sum_eq

theorem total_nonneg (h : ∀ u ∈ us, 0 ≤ figure u) : 0 ≤ total figure us := by
  refine List.sum_nonneg fun n hn => ?_
  obtain ⟨u, hu, rfl⟩ := List.mem_map.1 hn
  exact Int64.le_iff_toInt_le.1 (h u hu)

theorem natAbs_total_le (us : List Update) :
    (total figure us).natAbs ≤ (us.map fun u => (figure u).toInt.natAbs).sum := by
  induction us with
  | nil => exact Nat.le_refl _
  | cons u us ih =>
    have htri := Int.natAbs_add_le (figure u).toInt (total figure us)
    simp only [total, List.map_cons, List.sum_cons] at htri ih ⊢
    omega

/-! ### Sums within 64 bits -/

/-- In whatever order the updates come, the sum of the first few of them is one of 64 bits. -/
def NeverOverflows (figure : Update → Int64) (us : List Update) : Prop :=
  ∀ vs, vs.Perm us → ∀ ws, ws <+: vs → -2 ^ 63 ≤ total figure ws ∧ total figure ws < 2 ^ 63

theorem NeverOverflows.start (h : NeverOverflows figure us) (hv : vs.Perm us) (hw : ws <+: vs) :
    NeverOverflows figure ws := by
  intro xs hx ys hy
  obtain ⟨rest, rfl⟩ := hw
  exact h (xs ++ rest) ((hx.append_right rest).trans hv) ys (hy.trans (List.prefix_append ..))

/-- Figures whose absolute values have a sum of 64 bits never overflow. -/
theorem NeverOverflows.of_natAbs
    (h : (us.map fun u => (figure u).toInt.natAbs).sum < 2 ^ 63) : NeverOverflows figure us := by
  intro vs hv ws hw
  obtain ⟨rest, rfl⟩ := hw
  have hws : (total figure ws).natAbs ≤ _ := natAbs_total_le ws
  have hsum := (hv.map fun u => (figure u).toInt.natAbs).sum_eq
  rw [List.map_append, List.sum_append] at hsum
  omega

theorem NeverOverflows.toInt_add (h : NeverOverflows figure (us ++ [u]))
    (ha : a.toInt = total figure us) : (a + figure u).toInt = total figure (us ++ [u]) := by
  have hfits := h _ (.refl _) _ (List.prefix_refl _)
  rw [total_concat] at hfits ⊢
  rw [Int64.toInt_add, ha]
  exact Int.bmod_eq_of_le (by omega) (by omega)

theorem toInt_addSaturating (a b : Int64) :
    (addSaturating a b).toInt = max (-2 ^ 63) (min (a.toInt + b.toInt) (2 ^ 63 - 1)) := by
  have hmin : Int64.minValue.toInt = -2 ^ 63 := rfl
  have hmax : Int64.maxValue.toInt = 2 ^ 63 - 1 := rfl
  unfold addSaturating clamp
  rw [hmin, hmax, Int64.toInt_ofInt_of_le]
  · omega
  · omega

/-- A sum that has stopped at the greatest number of 64 bits stays there if nothing is taken from it. -/
theorem toInt_addSaturating_total (figure : Update → Int64)
    (ha : a.toInt = min (2 ^ 63 - 1) (total figure us)) (h : ∀ v ∈ us ++ [u], 0 ≤ figure v) :
    (addSaturating a (figure u)).toInt = min (2 ^ 63 - 1) (total figure (us ++ [u])) := by
  have hus : 0 ≤ total figure us := total_nonneg fun v hv => h v (List.mem_append_left _ hv)
  have hu : 0 ≤ (figure u).toInt := Int64.le_iff_toInt_le.1 (h u (by simp))
  rw [toInt_addSaturating, ha, total_concat]
  omega

/-! ### The newest instant -/

/-- The instant is that of the newest update. -/
structure IsNewest (t : Instant) (us : List Update) : Prop where
  attained : ∃ u ∈ us, u.lastEventAt = t
  newest : ∀ u ∈ us, u.lastEventAt ≤ t

namespace IsNewest

variable {s t : Instant}

theorem singleton (u : Update) : IsNewest u.lastEventAt [u] :=
  ⟨⟨u, by simp, rfl⟩, fun v hv => by rw [List.mem_singleton.1 hv]; exact Int.le_refl _⟩

theorem concat (h : IsNewest t us) : IsNewest (max t u.lastEventAt) (us ++ [u]) := by
  have hmax := Instant.rank_max t u.lastEventAt
  constructor
  · rcases Int.le_total t.rank u.lastEventAt.rank with hle | hle
    · refine ⟨u, by simp, Instant.rank_injective ?_⟩
      rw [hmax, Int.max_eq_right hle]
    · obtain ⟨v, hv, rfl⟩ := h.attained
      refine ⟨v, by simp [hv], Instant.rank_injective ?_⟩
      rw [hmax, Int.max_eq_left hle]
  · intro v hv
    show v.lastEventAt.rank ≤ (max t u.lastEventAt).rank
    rw [hmax]
    rcases List.mem_append.1 hv with hv | hv
    · exact Int.le_trans (h.newest v hv) (Int.le_max_left ..)
    · rw [List.mem_singleton.1 hv]
      exact Int.le_max_right ..

theorem unique (h : IsNewest t us) (h' : IsNewest s vs) (hp : vs.Perm us) : s = t := by
  obtain ⟨u, hu, rfl⟩ := h.attained
  obtain ⟨v, hv, rfl⟩ := h'.attained
  have hle : v.lastEventAt.rank ≤ u.lastEventAt.rank := h.newest v (hp.mem_iff.1 hv)
  have hge : u.lastEventAt.rank ≤ v.lastEventAt.rank := h'.newest u (hp.mem_iff.2 hu)
  exact Instant.rank_injective (Int.le_antisymm hle hge)

end IsNewest

/-! ### The counters of a video -/

namespace VideoCounters

attribute [ext] VideoCounters

/-- The increments of the counters. -/
def counts : List (Update → Int64) :=
  [(·.counters.views), (·.counters.completes), (·.counters.likes)]

/-- The row is that of the first update's video and holds the totals of all updates. -/
structure Totals (row : VideoCounters) (us : List Update) : Prop where
  video : us.head?.map (·.videoId) = some row.videoId
  views : row.views.toInt = total (·.counters.views) us
  completes : row.completes.toInt = total (·.counters.completes) us
  likes : row.likes.toInt = total (·.counters.likes) us
  newest : IsNewest row.lastEventAt us

variable {row row' : VideoCounters}

theorem totals_ofUpdate (u : Update) : (ofUpdate u).Totals [u] where
  video := rfl
  views := (total_singleton (·.counters.views) u).symm
  completes := (total_singleton (·.counters.completes) u).symm
  likes := (total_singleton (·.counters.likes) u).symm
  newest := .singleton u

theorem Totals.apply (h : row.Totals us) (hc : ∀ f ∈ counts, NeverOverflows f (us ++ [u])) :
    (row.apply u).Totals (us ++ [u]) where
  video := by
    rw [List.head?_append, Option.map_or, h.video]
    rfl
  views := (hc (·.counters.views) (by simp [counts])).toInt_add h.views
  completes := (hc (·.counters.completes) (by simp [counts])).toInt_add h.completes
  likes := (hc (·.counters.likes) (by simp [counts])).toInt_add h.likes
  newest := h.newest.concat

theorem totals_foldl (hc : ∀ f ∈ counts, NeverOverflows f (u :: us)) :
    (us.foldl apply (ofUpdate u)).Totals (u :: us) := by
  induction us using List.reverseRecOn with
  | nil => exact totals_ofUpdate u
  | append_singleton us v ih =>
    rw [List.foldl_append]
    exact (ih fun f hf => (hc f hf).start (.refl _) ⟨[v], rfl⟩).apply hc

theorem Totals.unique (h : row.Totals us) (h' : row'.Totals vs) (hp : vs.Perm us)
    (hv : vs.head?.map (·.videoId) = us.head?.map (·.videoId)) : row' = row := by
  ext1
  · exact Option.some.inj (by rw [← h'.video, hv, h.video])
  · exact Int64.toInt_inj.1 (by rw [h'.views, h.views, total_perm hp])
  · exact Int64.toInt_inj.1 (by rw [h'.completes, h.completes, total_perm hp])
  · exact Int64.toInt_inj.1 (by rw [h'.likes, h.likes, total_perm hp])
  · exact h.newest.unique h'.newest hp

end VideoCounters

/-! ### The day of a video -/

namespace VideoDaily

attribute [ext] VideoDaily

/-- The increments of the counts of a day. -/
def counts : List (Update → Int64) :=
  [(·.daily.views), (·.daily.completes), (·.daily.likes), (·.daily.clicks), (·.daily.impressions)]

/-- The row is that of the first update's video and day and holds the totals of all updates; the
total dwell stops at the greatest number of 64 bits. -/
structure Totals (row : VideoDaily) (us : List Update) : Prop where
  place : us.head?.map (fun u => (u.videoId, u.day)) = some (row.videoId, row.day)
  views : row.views.toInt = total (·.daily.views) us
  completes : row.completes.toInt = total (·.daily.completes) us
  likes : row.likes.toInt = total (·.daily.likes) us
  clicks : row.clicks.toInt = total (·.daily.clicks) us
  impressions : row.impressions.toInt = total (·.daily.impressions) us
  dwell : row.dwellMs.toInt = min (2 ^ 63 - 1) (total (·.daily.dwellMs) us)

variable {row row' : VideoDaily}

theorem totals_ofUpdate (u : Update) : (ofUpdate u).Totals [u] where
  place := rfl
  views := (total_singleton (·.daily.views) u).symm
  completes := (total_singleton (·.daily.completes) u).symm
  likes := (total_singleton (·.daily.likes) u).symm
  clicks := (total_singleton (·.daily.clicks) u).symm
  impressions := (total_singleton (·.daily.impressions) u).symm
  dwell := by
    have hlt := Int64.toInt_lt u.daily.dwellMs
    rw [total_singleton]
    show u.daily.dwellMs.toInt = _
    omega

theorem Totals.apply (h : row.Totals us) (hc : ∀ f ∈ counts, NeverOverflows f (us ++ [u]))
    (hd : ∀ v ∈ us ++ [u], 0 ≤ v.daily.dwellMs) : (row.apply u).Totals (us ++ [u]) where
  place := by
    rw [List.head?_append, Option.map_or, h.place]
    rfl
  views := (hc (·.daily.views) (by simp [counts])).toInt_add h.views
  completes := (hc (·.daily.completes) (by simp [counts])).toInt_add h.completes
  likes := (hc (·.daily.likes) (by simp [counts])).toInt_add h.likes
  clicks := (hc (·.daily.clicks) (by simp [counts])).toInt_add h.clicks
  impressions := (hc (·.daily.impressions) (by simp [counts])).toInt_add h.impressions
  dwell := toInt_addSaturating_total (·.daily.dwellMs) h.dwell hd

theorem totals_foldl (hc : ∀ f ∈ counts, NeverOverflows f (u :: us))
    (hd : ∀ v ∈ u :: us, 0 ≤ v.daily.dwellMs) :
    (us.foldl apply (ofUpdate u)).Totals (u :: us) := by
  induction us using List.reverseRecOn with
  | nil => exact totals_ofUpdate u
  | append_singleton us v ih =>
    rw [List.foldl_append]
    refine Totals.apply (ih (fun f hf => (hc f hf).start (.refl _) ⟨[v], rfl⟩) fun w hw => ?_) hc hd
    exact hd w (List.mem_append_left [v] hw)

theorem Totals.unique (h : row.Totals us) (h' : row'.Totals vs) (hp : vs.Perm us)
    (hv : vs.head?.map (fun u => (u.videoId, u.day)) = us.head?.map fun u => (u.videoId, u.day)) :
    row' = row := by
  obtain ⟨hvideo, hday⟩ : row'.videoId = row.videoId ∧ row'.day = row.day := by
    rw [← Prod.mk.injEq, ← Option.some.injEq, ← h'.place, hv, h.place]
  ext1
  · exact hvideo
  · exact hday
  · exact Int64.toInt_inj.1 (by rw [h'.views, h.views, total_perm hp])
  · exact Int64.toInt_inj.1 (by rw [h'.completes, h.completes, total_perm hp])
  · exact Int64.toInt_inj.1 (by rw [h'.likes, h.likes, total_perm hp])
  · exact Int64.toInt_inj.1 (by rw [h'.clicks, h.clicks, total_perm hp])
  · exact Int64.toInt_inj.1 (by rw [h'.impressions, h.impressions, total_perm hp])
  · exact Int64.toInt_inj.1 (by rw [h'.dwell, h.dwell, total_perm hp])

end VideoDaily

/-! ### Both rows -/

namespace Rows

theorem foldl_upsert (rows : Rows) (us : List Update) :
    us.foldl (fun rows u => some (upsert rows u)) (some rows) =
      some ⟨us.foldl .apply rows.counters, us.foldl .apply rows.daily⟩ := by
  induction us generalizing rows with
  | nil => rfl
  | cons u us ih => exact ih _

/-- The first update creates the rows, and the others are applied to them. -/
theorem ofUpdates_cons (u : Update) (us : List Update) :
    ofUpdates (u :: us) = some ⟨us.foldl .apply (.ofUpdate u), us.foldl .apply (.ofUpdate u)⟩ :=
  foldl_upsert _ us

theorem totals_of_prefix
    (hcounts : ∀ f ∈ VideoCounters.counts ++ VideoDaily.counts, NeverOverflows f us)
    (hdwell : ∀ u ∈ us, 0 ≤ u.daily.dwellMs) (hp : vs.Perm us) (hw : u :: ws <+: vs) :
    (ws.foldl VideoCounters.apply (.ofUpdate u)).Totals (u :: ws) ∧
    (ws.foldl VideoDaily.apply (.ofUpdate u)).Totals (u :: ws) := by
  have hc : ∀ f ∈ VideoCounters.counts ++ VideoDaily.counts, NeverOverflows f (u :: ws) :=
    fun f hf => (hcounts f hf).start hp hw
  refine ⟨VideoCounters.totals_foldl fun f hf => hc f (List.mem_append_left _ hf),
    VideoDaily.totals_foldl (fun f hf => hc f (List.mem_append_right _ hf)) fun v hv => ?_⟩
  exact hdwell v (hp.mem_iff.1 (hw.subset hv))

/-- Rows hold the totals of the updates that built them, in whatever order these came and after
each of them: counts are exact, the instant is the newest, and the dwell is the sum of the dwells or
the greatest number of 64 bits. So updates of one video and one day build the same rows in every
order. -/
theorem totals_in_any_order {us : List Update}
    (hcounts : ∀ f ∈ VideoCounters.counts ++ VideoDaily.counts, NeverOverflows f us)
    (hdwell : ∀ u ∈ us, 0 ≤ u.daily.dwellMs) :
    (∀ vs, vs.Perm us → ∀ w ws, w :: ws <+: vs →
      (ws.foldl VideoCounters.apply (.ofUpdate w)).Totals (w :: ws) ∧
      (ws.foldl VideoDaily.apply (.ofUpdate w)).Totals (w :: ws)) ∧
    ((∀ u ∈ us, ∀ v ∈ us, u.videoId = v.videoId ∧ u.day = v.day) →
      ∀ vs, vs.Perm us → ofUpdates vs = ofUpdates us) := by
  refine ⟨fun vs hp w ws => totals_of_prefix hcounts hdwell hp, fun hone vs hp => ?_⟩
  cases us with
  | nil => rw [hp.eq_nil]
  | cons u us =>
    cases vs with
    | nil => exact absurd hp.symm.eq_nil (List.cons_ne_nil u us)
    | cons v vs =>
      obtain ⟨hc, hd⟩ := totals_of_prefix hcounts hdwell (.refl _) (List.prefix_refl _)
      obtain ⟨hc', hd'⟩ := totals_of_prefix hcounts hdwell hp (List.prefix_refl _)
      obtain ⟨hvideo, hday⟩ := hone v (hp.mem_iff.1 (by simp)) u (by simp)
      rw [ofUpdates_cons, ofUpdates_cons, hc.unique hc' hp (by simp [hvideo]),
        hd.unique hd' hp (by simp [hvideo, hday])]

/-- One second after the epoch. -/
def secondAfter : Instant := (Instant.ofParts? 0 1 0).getD .epoch

/-- An update of a day in which a video was watched for longer than 64 bits can tell. -/
def ofLongDay (instant : Instant) (views likes dwellMs : Int64) : Update :=
  { videoId := ⟨21, by decide⟩, lastEventAt := instant, day := 0, counters := { views, likes }
    daily := { views, likes, dwellMs } }

/-- The dwell stops in the middle, and the newest update is neither the first nor the last. -/
def longDay : List Update :=
  [ofLongDay default 5 0 9223372036854775806, ofLongDay secondAfter (-3) 1 10,
    ofLongDay default 1 0 5]

theorem totals_of_long_day :
    (∀ f ∈ VideoCounters.counts ++ VideoDaily.counts, NeverOverflows f longDay) ∧
    (∀ u ∈ longDay, 0 ≤ u.daily.dwellMs) ∧
    ∃ rows, ofUpdates longDay = some rows ∧ rows.counters.Totals longDay ∧
      rows.daily.Totals longDay ∧ rows.daily.dwellMs = Int64.maxValue ∧
      rows.counters.lastEventAt = secondAfter ∧ ofUpdates longDay.reverse = some rows := by
  have hc : ∀ f ∈ VideoCounters.counts ++ VideoDaily.counts, NeverOverflows f longDay := by
    have hsmall : ∀ f ∈ VideoCounters.counts ++ VideoDaily.counts,
        (longDay.map fun u => (f u).toInt.natAbs).sum < 2 ^ 63 := by decide
    exact fun f hf => .of_natAbs (hsmall f hf)
  have hd : ∀ u ∈ longDay, 0 ≤ u.daily.dwellMs := by decide
  obtain ⟨htotals, hsame⟩ := totals_in_any_order hc hd
  obtain ⟨hcounters, hdaily⟩ := htotals longDay (.refl _) _ _ (List.prefix_refl _)
  have hone : ∀ u ∈ longDay, ∀ v ∈ longDay, u.videoId = v.videoId ∧ u.day = v.day := by decide
  refine ⟨hc, hd, _, ofUpdates_cons .., hcounters, hdaily, by decide, by decide, ?_⟩
  rw [hsame hone _ (List.reverse_perm longDay)]
  exact ofUpdates_cons ..

end Rows

end Intake.Aggregate
