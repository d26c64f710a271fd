import ActionPolicy.Cache.Metrics
import ActionPolicy.Proofs.KeyedList

/-!
# Reading exported counters

The text that counters are exported as is read line by line: a comment tells nothing, and every
other line has the name of a series, a blank and a value. What is read from an exported text are all
counters, in their order, each under a series of its own.

## Main definitions

* `Exposition.sample?`, `Exposition.samples` – the sample on a line, and those of a text.
* `Exposition.value?` – the value of a series.
* `Exposition.Tells` – whole lines tell some samples, whatever lines follow.
* `CacheMetrics.seriesName` – the name of a counter with its label.
* `CacheMetrics.series` – the counters by their series.

## Main statements

* `CacheMetrics.tells_family` – the samples of one family.
* `CacheMetrics.samples_exposition` – the samples of the whole text.
* `CacheMetrics.value?_exposition` – the value of each series.
-/

namespace ActionPolicy

namespace Exposition

/-- The sample on a line: a series and its value, with a blank between them. A line that begins with
a number sign is a comment. -/
def sample? (line : List Char) : Option (String × Nat) :=
  let series := line.takeWhile (· ≠ ' ')
  let digits := line.drop (series.length + 1)
  if line.head? = some '#' ∨ digits = [] ∨ digits.any (!·.isDigit) then none
  else some (String.ofList series, Nat.ofDigitChars 10 digits 0)

/-- The samples on the lines that characters make. -/
def samplesIn (cs : List Char) : List (String × Nat) := (cs.splitOn '\n').filterMap sample?

/-- The samples of a text. -/
def samples (text : String) : List (String × Nat) := samplesIn text.toList

/-- The value of a series: that of its first sample. -/
def value? (text series : String) : Option Nat := (samples text).lookup series

/-- The text holds neither blanks nor ends of lines. -/
def Unbroken (s : String) : Prop := ∀ c ∈ s.toList, c ≠ ' ' ∧ c ≠ '\n'

instance (s : String) : Decidable (Unbroken s) :=
  List.decidableBAll (fun c => c ≠ ' ' ∧ c ≠ '\n') s.toList

theorem Unbroken.append {s t : String} (hs : Unbroken s) (ht : Unbroken t) : Unbroken (s ++ t) := by
  intro c hc
  rw [String.toList_append, List.mem_append] at hc
  exact hc.elim (hs c) (ht c)

/-- The name of a series is without breaks and does not begin a comment. -/
structure IsSeries (s : String) : Prop where
  unbroken : Unbroken s
  first : s.toList.head?.any (· ≠ '#') = true

theorem IsSeries.append {s t : String} (hs : IsSeries s) (ht : Unbroken t) : IsSeries (s ++ t) := by
  refine ⟨hs.unbroken.append ht, ?_⟩
  have hfirst := hs.first
  rw [String.toList_append, List.head?_append]
  cases h : s.toList.head? with
  | none => rw [h] at hfirst; cases hfirst
  | some c => rw [h] at hfirst; exact hfirst

/-- The text consists of whole lines, which tell the samples whatever lines follow. -/
def Tells (text : String) (samples : List (String × Nat)) : Prop :=
  ∀ rest, samplesIn (text.toList ++ rest) = samples ++ samplesIn rest

variable {s t : String} {xs ys : List (String × Nat)}

namespace Tells

theorem empty : Tells "" [] := fun _ => rfl

theorem append (hs : Tells s xs) (ht : Tells t ys) : Tells (s ++ t) (xs ++ ys) := by
  intro rest
  rw [String.toList_append, List.append_assoc, hs, ht, List.append_assoc]

theorem samples_eq (h : Tells s xs) : samples s = xs := by
  have hnil : samplesIn [] = [] := rfl
  rw [samples, ← List.append_nil s.toList, h, hnil, List.append_nil]

/-- One line tells the sample on it, if there is one. -/
theorem line (h : '\n' ∉ s.toList) : Tells (s ++ "\n") (sample? s.toList).toList := by
  intro rest
  have htext : (s ++ "\n").toList ++ rest = s.toList ++ '\n' :: rest := by simp
  rw [htext, samplesIn, List.splitOn_append_cons_self_of_not_mem h, samplesIn]
  cases hsample : sample? s.toList with
  | none => rw [List.filterMap_cons_none hsample]; rfl
  | some sample => rw [List.filterMap_cons_some hsample]; rfl

theorem newline : Tells "\n" [] := line (s := "") List.not_mem_nil

theorem comment (h : '\n' ∉ s.toList) : Tells ("#" ++ s ++ "\n") [] := by
  have hcomment : sample? ("#" ++ s).toList = none := by simp [sample?]
  have hline := line (s := "#" ++ s) (by simp [h])
  rwa [hcomment] at hline

theorem sample {name : String} (h : IsSeries name) (n : Nat) :
    Tells (name ++ " " ++ toString n ++ "\n") [(name, n)] := by
  have hdigit : ∀ c ∈ Nat.toDigits 10 n, c.isDigit = true := fun c hc =>
    Nat.isDigit_of_mem_toDigits (by decide) (by decide) hc
  have htext : (name ++ " " ++ toString n).toList = name.toList ++ ' ' :: Nat.toDigits 10 n := by
    simp
  have hseries : (name.toList ++ ' ' :: Nat.toDigits 10 n).takeWhile (· ≠ ' ') =
      name.toList := by
    have hall : ∀ c ∈ name.toList, decide (c ≠ ' ') = true := fun c hc =>
      decide_eq_true (h.unbroken c hc).1
    rw [List.takeWhile_append_of_pos hall]
    simp
  have hdigits : (name.toList ++ ' ' :: Nat.toDigits 10 n).drop (name.toList.length + 1) =
      Nat.toDigits 10 n := by
    rw [List.drop_append]
    simp
  have hsample : sample? (name ++ " " ++ toString n).toList = some (name, n) := by
    have hhead : (name.toList ++ ' ' :: Nat.toDigits 10 n).head? ≠ some '#' := by
      have hfirst := h.first
      rw [List.head?_append]
      cases hhead : name.toList.head? with
      | none => simp
      | some c => simpa [hhead] using hfirst
    have hany : ¬(Nat.toDigits 10 n).any (!·.isDigit) = true := by simpa using hdigit
    rw [htext, sample?]
    simp only [hseries, hdigits]
    rw [if_neg (not_or.mpr ⟨hhead, not_or.mpr ⟨Nat.toDigits_ne_nil, hany⟩⟩),
      String.ofList_toList, Nat.ofDigitChars_ten_toDigits]
  have hline : '\n' ∉ (name ++ " " ++ toString n).toList := by
    rw [htext]
    intro hmem
    rcases List.mem_append.mp hmem with hmem | hmem
    · exact (h.unbroken _ hmem).2 rfl
    · rcases List.mem_cons.mp hmem with hmem | hmem
      · exact absurd hmem (by decide)
      · exact absurd (hdigit _ hmem) (by decide)
  have htells := line hline
  rwa [hsample] at htells

end Tells

end Exposition

namespace CacheMetrics

open Exposition

/-- The name of a counter with the label, if there is one, that tells it from others of that
name. -/
def seriesName (name : String) : Option (String × String) → String
  | none => name
  | some (key, text) => name ++ ("\x7b" ++ key ++ "=\x22" ++ text ++ "\x22\x7d")

/-- The counters of one name by their series. -/
def seriesOf (name : String) (samples : List (Option (String × String) × Nat)) :
    List (String × Nat) :=
  samples.map fun (label, n) => (seriesName name label, n)

/-- The counters by their series. -/
def series (m : CacheMetrics) : List (String × Nat) :=
  let c := m.counts
  seriesOf "flowpolicy_cache_lookups_total"
      [(some ("outcome", "hit"), c.hits), (some ("outcome", "miss"), c.misses)] ++
    (seriesOf "flowpolicy_cache_removals_total"
      [(some ("cause", "expired"), c.expirations),
        (some ("cause", "version_mismatch"), c.versionMismatches),
        (some ("cause", "evicted"), c.evictions), (some ("cause", "swept"), c.sweptEntries)] ++
    (seriesOf "flowpolicy_cache_transform_errors_total" [(none, c.transformErrors)] ++
    (seriesOf "flowpolicy_cache_sweeps_total" [(none, c.sweeps)] ++
    (seriesOf "flowpolicy_derivations_total" [(none, c.derivations)] ++
    seriesOf "flowpolicy_derivation_latency_bucket"
      (m.latency.samples.map fun (bound, n) => (some ("le", bound), n))))))

section Family

variable {name help : String} {samples : List (Option (String × String) × Nat)}

/-- Key and text of a label, if there is one, are without breaks. -/
def UnbrokenLabel (label : Option (String × String)) : Prop :=
  ∀ l ∈ label, Unbroken l.1 ∧ Unbroken l.2

instance : DecidablePred UnbrokenLabel := fun label =>
  inferInstanceAs (Decidable (∀ l ∈ label, _))

theorem isSeries_seriesName (hname : IsSeries name) {label : Option (String × String)}
    (hlabel : UnbrokenLabel label) : IsSeries (seriesName name label) := by
  cases label with
  | none => exact hname
  | some l =>
    obtain ⟨hkey, htext⟩ := hlabel l rfl
    have hopen : Unbroken "\x7b" := by decide
    have hequals : Unbroken "=\x22" := by decide
    have hclose : Unbroken "\x22\x7d" := by decide
    exact hname.append ((((hopen.append hkey).append hequals).append htext).append hclose)

theorem tells_sampleLine {label : Option (String × String)} (h : IsSeries (seriesName name label))
    (n : Nat) : Tells (sampleLine name label n) [(seriesName name label, n)] := by
  have htext : sampleLine name label n = seriesName name label ++ " " ++ toString n ++ "\n" := by
    cases label <;> simp [sampleLine, seriesName]
  rw [htext]
  exact .sample h n

theorem tells_sampleLines (hname : IsSeries name)
    (h : ∀ label ∈ samples.map Prod.fst, UnbrokenLabel label) :
    Tells (String.join (samples.map fun (label, n) => sampleLine name label n))
      (seriesOf name samples) := by
  induction samples with
  | nil => exact .empty
  | cons s samples ih =>
    rw [List.map_cons, List.forall_mem_cons] at h
    rw [List.map_cons, String.join_cons]
    exact (tells_sampleLine (isSeries_seriesName hname h.1) s.2).append (ih h.2)

/-- The samples of a family are its counters; what heads them are comments. -/
theorem tells_family (hname : IsSeries name) (hhelp : '\n' ∉ help.toList)
    (h : ∀ label ∈ samples.map Prod.fst, UnbrokenLabel label) :
    Tells (family name help samples) (seriesOf name samples) := by
  have hline : '\n' ∉ name.toList := fun hmem => (hname.unbroken _ hmem).2 rfl
  have hfirst : Tells ("#" ++ (" HELP " ++ name ++ " " ++ help) ++ "\n") [] :=
    .comment (by simp [hline, hhelp])
  have hsecond : Tells ("#" ++ (" TYPE " ++ name ++ " counter") ++ "\n") [] :=
    .comment (by simp [hline])
  have htext : family name help samples =
      ("#" ++ (" HELP " ++ name ++ " " ++ help) ++ "\n") ++
        (("#" ++ (" TYPE " ++ name ++ " counter") ++ "\n") ++
          String.join (samples.map fun (label, n) => sampleLine name label n)) := by
    simp [family, ← String.toList_inj]
  rw [htext]
  exact hfirst.append (hsecond.append (tells_sampleLines hname h))

end Family

/-- What is read from an exported text are all counters. -/
theorem samples_exposition (m : CacheMetrics) : samples m.exposition = m.series := by
  -- The families are parted by empty lines, which tell nothing.
  have hparted : ∀ {s t : String} {xs ys : List (String × Nat)}, Tells s xs → Tells t ys →
      Tells (s ++ "\n" ++ t) (xs ++ ys) := fun hs ht => by
    simpa using (hs.append .newline).append ht
  refine Tells.samples_eq ?_
  unfold exposition families series
  simp only [String.intercalate_cons_cons, String.intercalate_singleton]
  refine hparted (tells_family ⟨by decide, by decide⟩ (by decide) ?lookups)
    (hparted (tells_family ⟨by decide, by decide⟩ (by decide) ?removals)
    (hparted (tells_family ⟨by decide, by decide⟩ (by decide) ?transformErrors)
    (hparted (tells_family ⟨by decide, by decide⟩ (by decide) ?sweeps)
    (hparted (tells_family ⟨by decide, by decide⟩ (by decide) ?derivations)
    (tells_family ⟨by decide, by decide⟩ (by decide) ?latency)))))
  all_goals
    simp only [LatencyBuckets.samples, List.map_cons, List.map_nil]
    decide

theorem nodup_series (m : CacheMetrics) : (m.series.map Prod.fst).Nodup := by
  simp only [series, seriesOf, LatencyBuckets.samples, List.map_cons, List.map_nil,
    List.cons_append, List.nil_append]
  decide

/-- Every counter is read under its series. -/
theorem value?_exposition {m : CacheMetrics} {name : String} {n : Nat}
    (h : (name, n) ∈ m.series) : value? m.exposition name = some n := by
  rw [value?, samples_exposition]
  exact (lookup_eq_some_iff_mem m.nodup_series).mpr h

end CacheMetrics

end ActionPolicy
