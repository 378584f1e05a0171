import Intake.Proofs.Calendar
import Intake.Proofs.Digits

/-!
# Instants read back from their text

`read?_text`: the RFC 3339 form of an instant is read as the instant that it shows. This is the
instant itself (`shown_eq_self`), but for one with a fraction of a second or more that is no leap
second: it is written like the second after it (`shown_of_excess`), and read as that one. There is
one lemma for each part of the form, with whatever text comes after it.
-/

namespace Intake.Instant

open Text

variable {ds rest : List Char} {c : Char} {n most : Nat} {t : Instant}

/-- The instant that the text of `t` shows. A fraction of a second or more is one second on, unless
the minute has no further second. -/
def shown (t : Instant) : Instant :=
  if h : 1000000000 ≤ t.nano ∧ t.second % 60 ≠ 59 then
    { t with
      second := t.second + 1
      nano := t.nano - 1000000000
      second_lt := by have := t.second_lt; omega
      nano_lt := by have := t.nano_lt; omega }
  else t

theorem shown_eq_self (h : 1000000000 ≤ t.nano → t.second % 60 = 59) : t.shown = t :=
  dif_neg fun hex => hex.2 (h hex.1)

theorem shown_of_excess (hn : 1000000000 ≤ t.nano) (hs : t.second % 60 ≠ 59) :
    t.shown.day = t.day ∧ t.shown.second = t.second + 1 ∧ t.shown.nano + 1000000000 = t.nano := by
  have he : t.shown = _ := dif_pos ⟨hn, hs⟩
  rw [he]
  exact ⟨rfl, rfl, Nat.sub_add_cancel hn⟩

@[simp] theorem day_shown (t : Instant) : t.shown.day = t.day := by
  unfold shown
  split <;> rfl

theorem number_digits (hds : ∀ c ∈ ds, isDigit c = true) (hne : ds ≠ []) (hlen : ds.length ≤ most)
    (hrest : ds.length = most ∨ ∀ c ∈ rest.head?, isDigit c = false) :
    number most (ds ++ rest) = some (ofDigits ds, rest) := by
  unfold number
  rw [takeDigits_append hds hlen hrest]
  cases ds with
  | nil => exact absurd rfl hne
  | cons c ds => rfl

theorem field_padded (h : n < 100) (rest : List Char) :
    field (padded 2 n ++ rest) = some (n, rest) := by
  have hlen : (padded 2 n).length = 2 := length_padded h (by decide)
  unfold field
  rw [trimStart_digits (fun c hc => isDigit_of_mem_padded hc) (padded_ne_nil 2 n),
    number_digits (fun c hc => isDigit_of_mem_padded hc) (padded_ne_nil 2 n) (Nat.le_of_eq hlen)
      (.inl hlen), ofDigits_padded]

theorem mark_cons (h : isBlank c = false) (rest : List Char) : mark c (c :: rest) = some rest := by
  simp [mark, trimStart, h]

/-- A text that begins with a digit begins with no sign. -/
theorem year_of_digits (hds : ∀ c ∈ ds, isDigit c = true) (hne : ds ≠ []) (rest : List Char) :
    year (ds ++ rest) = (number 4 (ds ++ rest)).map fun (n, rest) => ((n : Int), rest) := by
  have hhead : ∀ c cs, ds ++ rest = c :: cs → isDigit c = true := by
    intro c cs h
    cases ds with
    | nil => exact absurd rfl hne
    | cons d ds =>
      cases h
      exact hds _ (List.mem_cons_self ..)
  unfold year
  rw [trimStart_digits hds hne]
  split
  · next cs h => exact absurd (hhead _ _ h) (by decide)
  · next cs h => exact absurd (hhead _ _ h) (by decide)
  · rfl

theorem year_yearText (y : Int) (rest : List Char) :
    year (yearText y ++ '-' :: rest) = some (y, '-' :: rest) := by
  have hdigits : ∀ n, ∀ c ∈ padded 4 n, isDigit c = true := fun n c hc => isDigit_of_mem_padded hc
  have hhyphen : ∀ c ∈ ('-' :: rest).head?, isDigit c = false := by
    rintro c ⟨⟩
    decide
  -- after a sign there may be any number of digits
  have hsigned : ∀ n, number (padded 4 n ++ '-' :: rest).length (padded 4 n ++ '-' :: rest) =
      some (n, '-' :: rest) := by
    intro n
    rw [number_digits (hdigits n) (padded_ne_nil 4 n) (by simp) (.inr hhyphen), ofDigits_padded]
  have htrim : ∀ c, isBlank c = false → ∀ cs, trimStart (c :: cs) = c :: cs := by
    intro c hc cs
    simp [trimStart, hc]
  unfold yearText
  split
  · next hy =>
    have hfits : y.toNat < 10000 := by omega
    have hlen : (padded 4 y.toNat).length = 4 := length_padded hfits (by decide)
    rw [year_of_digits (hdigits _) (padded_ne_nil 4 _),
      number_digits (hdigits _) (padded_ne_nil 4 _) (Nat.le_of_eq hlen) (.inl hlen),
      ofDigits_padded]
    simp only [Option.map_some, Int.toNat_of_nonneg hy.1]
  · next hy =>
    unfold year
    by_cases hneg : y < 0
    · rw [if_pos hneg, List.cons_append, htrim '-' (by decide)]
      simp only [hsigned, Option.map_some, Option.some.injEq, Prod.mk.injEq, and_true]
      omega
    · rw [if_neg hneg, List.cons_append, htrim '+' (by decide)]
      simp only [hsigned, Option.map_some, Option.some.injEq, Prod.mk.injEq, and_true]
      omega

theorem date_dateText (day : Int) (rest : List Char) :
    date (dateText day ++ rest) = some (Date.ofDay day, rest) := by
  have he := Date.exists_ofDay day
  have hm : (Date.ofDay day).month < 100 := Nat.lt_of_le_of_lt he.month_le (by decide)
  have hd : (Date.ofDay day).day < 100 := Nat.lt_of_le_of_lt he.day_le (by decide)
  have hmark : ∀ cs, mark '-' ('-' :: cs) = some cs := mark_cons (by decide)
  unfold dateText
  generalize Date.ofDay day = d at *
  obtain ⟨y, m, dom⟩ := d
  simp only [List.append_assoc, List.cons_append, date, year_yearText, hmark, field_padded hm,
    field_padded hd, Option.bind_eq_bind, Option.bind_some]
  rw [if_pos he]

theorem decimals_fractionText {nano : Nat} (h : nano < 1000000000) :
    decimals (fractionText nano ++ ['Z']) = some (nano, ['Z']) := by
  -- `k` digits are read as billionths
  have hdecimals : ∀ k n, 0 < k → k ≤ 9 → n < 10 ^ k →
      decimals ('.' :: padded k n ++ ['Z']) = some (n * 10 ^ (9 - k), ['Z']) := by
    intro k n hk hk9 hn
    have hlen : (padded k n).length = k := length_padded hn hk
    have htake : takeDigits 9 (padded k n ++ ['Z']) = (padded k n, ['Z']) := by
      refine takeDigits_append (fun c hc => isDigit_of_mem_padded hc) (by omega) (.inr ?_)
      rintro c ⟨⟩
      decide
    have hvalue := ofDigits_padded k n
    have hne := padded_ne_nil k n
    rw [List.cons_append, decimals, htake]
    generalize padded k n = ds at *
    cases ds with
    | nil => exact absurd rfl hne
    | cons c ds =>
      simp only [hvalue, hlen]
      rfl
  unfold fractionText
  split
  · next h0 =>
    subst h0
    rfl
  · split
    · next h3 =>
      rw [hdecimals 3 _ (by decide) (by decide) (by omega)]
      simp only [Option.some.injEq, Prod.mk.injEq, and_true]
      omega
    · split
      · next h6 =>
        rw [hdecimals 6 _ (by decide) (by decide) (by omega)]
        simp only [Option.some.injEq, Prod.mk.injEq, and_true]
        omega
      · rw [hdecimals 9 _ (by decide) (by decide) (by omega)]
        simp

theorem time_timeText (t : Instant) :
    time (t.timeText ++ ['Z']) = some ((t.shown.second, t.shown.nano), ['Z']) := by
  have hs := t.second_lt
  have hn := t.nano_lt
  have hmark : ∀ cs, mark ':' (':' :: cs) = some cs := mark_cons (by decide)
  have hhour : t.second / 3600 < 100 := by omega
  have hminute : t.second / 60 % 60 < 100 := by omega
  have hsecond : t.second % 60 + t.nano / 1000000000 < 100 := by omega
  have hnano : t.nano % 1000000000 < 1000000000 := by omega
  unfold timeText
  simp only [List.append_assoc, List.cons_append, time, hmark, field_padded hhour,
    field_padded hminute, field_padded hsecond, decimals_fractionText hnano, Option.bind_eq_bind,
    Option.bind_some]
  -- a normal second, a leap second, or a second that is shown as the next one
  by_cases hl : 1000000000 ≤ t.nano
  · by_cases hmod : t.second % 60 = 59
    · rw [shown_eq_self fun _ => hmod, if_neg (by omega), if_pos (by omega)]
      simp only [Option.some.injEq, Prod.mk.injEq, and_true]
      omega
    · obtain ⟨-, hsecond', hnano'⟩ := shown_of_excess hl hmod
      rw [if_pos (by omega)]
      simp only [Option.some.injEq, Prod.mk.injEq, and_true]
      omega
  · rw [shown_eq_self fun h => absurd h hl, if_pos (by omega)]
    simp only [Option.some.injEq, Prod.mk.injEq, and_true]
    omega

theorem atOffset_zero (t : Instant) : atOffset t.day t.second t.nano 0 = some t := by
  obtain ⟨day, second, nano, hge, hle, hs, hn⟩ := t
  have hday : day + ((second : Int) - 0 * 60) / 86400 = day := by omega
  have hsecond : (((second : Int) - 0 * 60) % 86400).toNat = second := by omega
  unfold atOffset
  simp only [hday, hsecond]
  rw [if_pos ⟨hge, hle⟩, ofParts?, dif_pos ⟨hge, hle, hs, hn⟩]

theorem read?_text (t : Instant) : read? t.text = some t.shown := by
  have hzero := atOffset_zero t.shown
  rw [day_shown] at hzero
  have htrim : trimStart ['Z'] = ['Z'] := by decide
  have hoffset : offset ['Z'] = some (0, []) := rfl
  unfold read? text
  rw [String.toList_ofList]
  simp only [List.append_assoc, List.cons_append, date_dateText, join, time_timeText, htrim, hoffset,
    Option.bind_eq_bind, Option.bind_some, true_or, if_true, Date.toDay_ofDay, hzero]
  rfl

end Intake.Instant
