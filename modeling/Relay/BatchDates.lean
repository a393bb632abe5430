import Relay.Model.PowerShell

/-!
# The dates of a batch

A date of the manifest is read as a local time, printed in the invariant culture, and read again in
the current one.

* `readNumbers_invariantText`: the numbers that are printed are read back;
* `Faithful`: what the culture and the zone make of them, `keepsInstant_iff`;
* `asks_submitItem`: a batch schedules for the moment that is read.
-/

namespace Relay

open Exchange

/-! ### Printing and reading -/

section Digits

/-- A decimal digit. -/
def IsDecimal (c : Char) : Prop := ∃ n : Fin 10, c = Char.ofNat (48 + n)

theorem isDecimal_of_mem {w n : ℕ} {c : Char} (h : c ∈ Time.decimals w n) : IsDecimal c := by
  induction w generalizing n with
  | zero => cases h
  | succ w ih =>
    rcases List.mem_append.1 h with h | h
    · exact ih h
    · rw [List.mem_singleton.1 h]
      exact ⟨⟨n % 10, Nat.mod_lt _ (by decide)⟩, rfl⟩

/-- A digit separates nothing, and has its value. -/
theorem IsDecimal.spec {c : Char} (h : IsDecimal c) :
    (decide (c = '/') || decide (c = ' ') || decide (c = ':')) = false := by
  obtain ⟨n, rfl⟩ := h
  revert n
  decide

theorem toNat_decimal (n : ℕ) : (Char.ofNat (48 + n % 10)).toNat - 48 = n % 10 := by
  have hall : ∀ m : Fin 10, (Char.ofNat (48 + m)).toNat - 48 = m := by decide
  exact hall ⟨n % 10, Nat.mod_lt _ (by decide)⟩

/-- **The digits of a number are its value**, up to the width. -/
theorem decimalValue_decimals (w n : ℕ) : decimalValue (Time.decimals w n) = n % 10 ^ w := by
  induction w generalizing n with
  | zero => simp [Time.decimals, decimalValue, Nat.mod_one]
  | succ w ih =>
    have hlast : decimalValue (Time.decimals (w + 1) n) =
        10 * decimalValue (Time.decimals w (n / 10)) + n % 10 := by
      unfold decimalValue
      rw [Time.decimals, List.foldl_append, List.foldl_cons, List.foldl_nil, toNat_decimal]
    rw [hlast, ih, pow_succ, Nat.mul_comm (10 ^ w) 10, Nat.mod_mul]
    omega

end Digits

/-- Numbers that fit their places. -/
structure DateNumbers.Fits (n : DateNumbers) : Prop where
  first : n.first < 100
  second : n.second < 100
  year : n.year < 10000
  hours : n.hours < 24
  minutes : n.minutes < 60
  seconds : n.seconds < 60

/-- **The numbers that are printed are read back.** -/
theorem DateNumbers.Fits.read {n : DateNumbers} (h : n.Fits) : readNumbers n.text = some n := by
  have hdigits : ∀ w k, ∀ c ∈ Time.decimals w k,
      (decide (c = '/') || decide (c = ' ') || decide (c = ':')) = false :=
    fun w k c hc => (isDecimal_of_mem hc).spec
  have hsplit : (Text.splitOn (fun c => c = '/' || c = ' ' || c = ':') n.text.toList).map decimalValue =
      [n.first, n.second, n.year, n.hours, n.minutes, n.seconds] := by
    unfold DateNumbers.text
    rw [String.toList_ofList, Text.splitOn_segment (by decide) (hdigits _ _),
      Text.splitOn_segment (by decide) (hdigits _ _), Text.splitOn_segment (by decide) (hdigits _ _),
      Text.splitOn_segment (by decide) (hdigits _ _), Text.splitOn_segment (by decide) (hdigits _ _),
      Text.splitOn_of_forall (hdigits _ _)]
    simp only [List.map_cons, List.map_nil, decimalValue_decimals, show (10 : ℕ) ^ 2 = 100 from rfl,
      show (10 : ℕ) ^ 4 = 10000 from rfl]
    rw [Nat.mod_eq_of_lt h.first, Nat.mod_eq_of_lt h.second, Nat.mod_eq_of_lt h.year,
      Nat.mod_eq_of_lt (h.hours.trans (by decide)), Nat.mod_eq_of_lt (h.minutes.trans (by decide)),
      Nat.mod_eq_of_lt (h.seconds.trans (by decide))]
  unfold readNumbers
  rw [hsplit]
  exact if_pos ⟨rfl, h.hours, h.minutes, h.seconds⟩

/-! ### A local time -/

section Local

variable {wall t : Time} {day : ℤ}

/-- The whole second in which a moment falls. -/
def wholeSecond (t : Time) : Time := t - t % seconds 1

theorem days_eq (n : ℤ) : days n = n * 86400 * 1000000 := by
  show (60 * (1440 * n) * 1000000 : ℤ) = n * 86400 * 1000000
  omega

/-- The seconds of a day. -/
theorem secondOfDay_lt (wall : Time) : (wall % days 1 / seconds 1).toNat < 86400 := by
  show (wall % (60 * (1440 * 1) * 1000000 : ℤ) / (1 * 1000000 : ℤ)).toNat < 86400
  omega

theorem dateNumbers_fits (hyear : 1 ≤ (Time.civil (Time.day wall)).1 ∧
    (Time.civil (Time.day wall)).1 ≤ 9999) : (dateNumbers wall).Fits := by
  have hbounds := Time.civil_bounds (Time.day wall)
  have hs := secondOfDay_lt wall
  unfold dateNumbers
  generalize Time.civil (Time.day wall) = date at *
  obtain ⟨y, m, d⟩ := date
  simp only at hbounds hyear
  refine ⟨?_, ?_, ?_, ?_, ?_, ?_⟩ <;> simp only <;> omega

/-- The date of a local time, in the order in which it is printed. -/
theorem civil_dateNumbers (hyear : 1 ≤ (Time.civil (Time.day wall)).1) :
    Time.civil (Time.day wall) =
      (((dateNumbers wall).year : ℤ), ((dateNumbers wall).first : ℤ), ((dateNumbers wall).second : ℤ)) := by
  have hbounds := Time.civil_bounds (Time.day wall)
  unfold dateNumbers
  generalize Time.civil (Time.day wall) = date at *
  obtain ⟨y, m, d⟩ := date
  simp only at hbounds hyear
  simp only [Prod.mk.injEq]
  omega

/-- The time of day is kept, to the second. -/
theorem onDay_dateNumbers (wall : Time) (day : ℤ) :
    (dateNumbers wall).onDay day = wholeSecond wall + days (day - Time.day wall) := by
  have hs : ((wall % days 1 / seconds 1).toNat : ℤ) = wall % 86400000000 / 1000000 := by
    show ((wall % (60 * (1440 * 1) * 1000000 : ℤ) / (1 * 1000000 : ℤ)).toNat : ℤ) = _
    omega
  have hday : Time.day wall = wall / 86400000000 := rfl
  have hclock : ∀ k : ℕ,
      3600 * ((k / 3600 : ℕ) : ℤ) + 60 * ((k / 60 % 60 : ℕ) : ℤ) + ((k % 60 : ℕ) : ℤ) = k := by
    intro k
    omega
  have htime : (dateNumbers wall).onDay day = days day + wall % 86400000000 / 1000000 * 1000000 := by
    show days day + (3600 * (((wall % days 1 / seconds 1).toNat / 3600 : ℕ) : ℤ) +
      60 * (((wall % days 1 / seconds 1).toNat / 60 % 60 : ℕ) : ℤ) +
      (((wall % days 1 / seconds 1).toNat % 60 : ℕ) : ℤ)) * 1000000 = _
    rw [hclock, hs]
  rw [htime, hday, days_eq, days_eq]
  show (day * 86400 * 1000000 + wall % 86400000000 / 1000000 * 1000000 : ℤ) =
    wall - wall % (1 * 1000000) + (day - wall / 86400000000) * 86400 * 1000000
  omega

end Local

/-! ### The moment that is read -/

/-- Two moments are the same to the second. -/
def SameSecond (a b : Time) : Prop := wholeSecond a = wholeSecond b

/-- What the culture and the zone must make of the local time of a moment: the numbers are read in the
Gregorian calendar and in the order in which they were printed, or are the same number, and the local
time is read with the offset of the moment. -/
structure Faithful (p : PowerShell) (t : Time) : Prop where
  calendar : p.culture.calendar = .gregorian
  order : p.culture.monthFirst = true ∨
    (dateNumbers (p.zone.localTime t)).first = (dateNumbers (p.zone.localTime t)).second
  offset : p.zone.localOffset (wholeSecond (p.zone.localTime t)) = p.zone.utcOffset t

section Read

variable {p : PowerShell} {text : String} {t : Time}

theorem wholeSecond_add (t : Time) (n : ℤ) : wholeSecond (t + seconds n) = wholeSecond t + seconds n := by
  have h : ∀ a : ℤ, a + n * 1000000 - (a + n * 1000000) % (1 * 1000000) =
      a - a % (1 * 1000000) + n * 1000000 := fun a => by omega
  exact h t

theorem wholeSecond_wholeSecond (t : Time) : wholeSecond (wholeSecond t) = wholeSecond t := by
  have h : ∀ a : ℤ, a - a % (1 * 1000000) - (a - a % (1 * 1000000)) % (1 * 1000000) =
      a - a % (1 * 1000000) := fun a => by omega
  exact h t

/-- A local time that no other moment shows is read with the offset of its moment. -/
theorem Zone.offset_of_unambiguous (z : Zone) (hwhole : z.utcOffset (wholeSecond t) = z.utcOffset t)
    (h : ∀ t', z.localTime t' = z.localTime (wholeSecond t) → t' = wholeSecond t) :
    z.localOffset (wholeSecond (z.localTime t)) = z.utcOffset t := by
  have hlocal : wholeSecond (z.localTime t) = wholeSecond t + seconds (z.utcOffset (wholeSecond t)) := by
    rw [hwhole]
    exact wholeSecond_add t _
  rw [hlocal, z.unambiguous _ h, hwhole]

/-- What is read of the text that is printed. -/
theorem parseDate_manifestText (h : p.jsonDate text = some t) :
    p.parseDate (p.manifestText text) =
      (p.culture.readDate (dateNumbers (p.zone.localTime t)).first
        (dateNumbers (p.zone.localTime t)).second (dateNumbers (p.zone.localTime t)).year).map fun day =>
          wholeSecond (p.zone.localTime t) + days (day - Time.day (p.zone.localTime t)) -
            seconds (p.zone.localOffset (wholeSecond (p.zone.localTime t) +
              days (day - Time.day (p.zone.localTime t)))) := by
  have hfits := dateNumbers_fits (p.representable text t h)
  unfold PowerShell.manifestText PowerShell.parseDate
  rw [h]
  simp only [invariantText, hfits.read, onDay_dateNumbers]

/-- A date that is not read as it was printed is another day, and not the next one. -/
theorem Culture.readDate_far {c : Culture} {n : DateNumbers} {day g : ℤ}
    (hg : Time.gregorian n.year n.first n.second = some g)
    (hread : c.readDate n.first n.second n.year = some day)
    (hmis : ¬ (c.calendar = .gregorian ∧ (c.monthFirst = true ∨ n.first = n.second))) : 2 ≤ |day - g| := by
  unfold Culture.readDate at hread
  cases hcalendar : c.calendar with
  | gregorian =>
    rw [hcalendar] at hread
    have hfirst : c.monthFirst = false := by
      by_contra hfirst
      exact hmis ⟨hcalendar, .inl (by simpa using hfirst)⟩
    have hne : n.first ≠ n.second := fun h => hmis ⟨hcalendar, .inr h⟩
    rw [hfirst, if_neg Bool.false_ne_true] at hread
    exact Time.gregorian_swapped hne hg hread
  | other read far =>
    rw [hcalendar] at hread
    split at hread
    · exact far _ _ _ _ _ _ _ hread hg
    · exact far _ _ _ _ _ _ _ hread hg

/-- A date that is read as it was printed is the day that was printed. -/
theorem Culture.readDate_eq {c : Culture} {n : DateNumbers} {g : ℤ}
    (hg : Time.gregorian n.year n.first n.second = some g) (hcalendar : c.calendar = .gregorian)
    (horder : c.monthFirst = true ∨ n.first = n.second) :
    c.readDate n.first n.second n.year = some g := by
  unfold Culture.readDate
  rw [hcalendar]
  rcases horder with hfirst | heq
  · rw [if_pos hfirst]
    exact hg
  · rw [← heq] at hg ⊢
    split <;> exact hg

/-- **The moment is kept to the second exactly when culture and zone are faithful.** -/
theorem read_iff (h : p.jsonDate text = some t) :
    (∃ posted, p.parseDate (p.manifestText text) = some posted ∧ SameSecond posted t) ↔ Faithful p t := by
  set wall := p.zone.localTime t with hwall
  have hgregorian : Time.gregorian (dateNumbers wall).year (dateNumbers wall).first
      (dateNumbers wall).second = some (Time.day wall) :=
    Time.gregorian_civil (civil_dateNumbers (p.representable text t h).1)
  have hsecond : wholeSecond wall = wholeSecond t + seconds (p.zone.utcOffset t) :=
    wholeSecond_add t _
  -- the moment read, as a whole second that is off by days and offsets
  have hposted : ∀ (d loc : ℤ), SameSecond (wholeSecond wall + days d - seconds loc) t ↔
      p.zone.utcOffset t + 86400 * d = loc := by
    intro d loc
    have hshift : ∀ a off : ℤ, a + off * 1000000 + d * 86400 * 1000000 - loc * 1000000 =
        a + (off + 86400 * d - loc) * 1000000 := fun a off => by omega
    have hzero : ∀ a off : ℤ, a + (off + 86400 * d - loc) * 1000000 = a ↔ off + 86400 * d = loc :=
      fun a off => by omega
    have hread : wholeSecond wall + days d - seconds loc =
        wholeSecond t + seconds (p.zone.utcOffset t + 86400 * d - loc) := by
      rw [hsecond, days_eq]
      exact hshift _ _
    unfold SameSecond
    rw [hread, wholeSecond_add, wholeSecond_wholeSecond]
    exact hzero _ _
  rw [parseDate_manifestText h, ← hwall]
  constructor
  · rintro ⟨posted, hparse, hsame⟩
    obtain ⟨day, hread, rfl⟩ := Option.map_eq_some_iff.1 hparse
    rw [hposted] at hsame
    have hoffset := (p.zone.bounded t).1
    have hlocal := (p.zone.bounded (wholeSecond wall + days (day - Time.day wall))).2
    rw [abs_le] at hoffset hlocal
    have hnear : ¬ 2 ≤ |day - Time.day wall| := by
      rw [le_abs]
      generalize p.zone.localOffset _ = loc at *
      omega
    have hfaithful : p.culture.calendar = .gregorian ∧ (p.culture.monthFirst = true ∨
        (dateNumbers wall).first = (dateNumbers wall).second) := by
      by_contra hmis
      exact hnear (Culture.readDate_far hgregorian hread hmis)
    obtain rfl : Time.day wall = day :=
      Option.some.inj ((Culture.readDate_eq hgregorian hfaithful.1 hfaithful.2).symm.trans hread)
    refine ⟨hfaithful.1, hfaithful.2, ?_⟩
    rw [sub_self, days_eq, zero_mul, zero_mul, add_zero] at hsame
    rw [← hwall, ← hsame, mul_zero, add_zero]
  · rintro ⟨hcalendar, horder, hoffset⟩
    rw [Culture.readDate_eq hgregorian hcalendar horder]
    refine ⟨_, rfl, ?_⟩
    rw [hposted, sub_self, days_eq, zero_mul, zero_mul, add_zero, mul_zero, add_zero]
    exact hoffset.symm

end Read

/-! ### The moment that is posted -/

/-- A request to schedule is for one of the moments that `φ` allows. -/
def SchedulesFor (φ : Time → Prop) (q : VaultRequest) : Prop :=
  ∀ key data, q = .api (.createPublication key data) → φ data.scheduledFor

section Posted

variable {env : Env} {m : Workstation} {c : ProfileConfig} {φ : Time → Prop}

theorem asks_invokeRelayJson {request : ApiRequest} (h : SchedulesFor φ (.api request)) :
    Asks (SchedulesFor φ) (invokeRelayJson request) := by
  refine (asks_send h).bind fun answer => ?_
  split
  · exact asks_pure _
  · exact asks_throw _
  · exact asks_throw _

theorem asks_asPost (data : Data) : Asks (SchedulesFor φ) data.asPost := by
  unfold Data.asPost
  split
  · exact asks_pure _
  · exact asks_throw _

theorem asks_putImage (url : String) (headers : List (String × String)) (contentType : String)
    (file : VaultFile) : Asks (SchedulesFor φ) (putImage url headers contentType file) := by
  refine (asks_send nofun).bind fun answer => ?_
  split
  · exact asks_pure _
  · exact asks_throw _

theorem asks_getRelayMediaAsset (path : String) : Asks (SchedulesFor φ) (getRelayMediaAsset m c path) := by
  unfold getRelayMediaAsset
  split
  · exact asks_throw _
  split
  · exact asks_throw _
  split
  · exact asks_throw _
  refine (asks_invokeRelayJson nofun).bind fun intent => ?_
  split
  · refine (asks_putImage _ _ _ _).bind fun _ => ?_
    exact (asks_invokeRelayJson nofun).bind fun _ => asks_pure _
  · exact asks_throw _

theorem asks_getRelayMediaAssets (paths : List String) :
    Asks (SchedulesFor φ) (getRelayMediaAssets m c paths) := by
  induction paths with
  | nil => exact asks_pure _
  | cons path paths ih =>
    exact (asks_getRelayMediaAsset path).bind fun _ => ih.bind fun _ => asks_pure _

/-- Each connection is scheduled for the one moment. -/
theorem asks_schedulePublications {itemKey : String} {variant : Option Uuid} {scheduledFor : Time}
    (h : φ scheduledFor) (index : ℕ) (connections : List Uuid) :
    Asks (SchedulesFor φ) (schedulePublications env itemKey variant scheduledFor index connections) := by
  induction connections generalizing index with
  | nil => exact asks_pure _
  | cons connection connections ih =>
    unfold schedulePublications
    split
    · exact asks_throw _
    · refine (asks_invokeRelayJson fun key data heq => ?_).bind fun _ => (ih _).bind fun _ => asks_pure _
      cases heq
      exact h

/-- **An item is scheduled for the moment that is read of its date.** -/
theorem asks_submitItem (item : ManifestItem) :
    Asks (SchedulesFor fun posted => m.parseDate item.scheduledFor = some posted)
      (submitItem env m c item) := by
  unfold submitItem
  split
  · exact asks_throw _
  split
  · exact asks_throw _
  unfold submitRelayItem
  split
  · exact asks_throw _
  split
  · exact asks_throw _
  refine (asks_getRelayMediaAssets _).bind fun _ => (asks_invokeRelayJson nofun).bind fun created =>
    (asks_asPost created).bind fun post => ?_
  -- the date is not blank, so it is read
  split
  · exact asks_throw _
  rename_i scheduledFor hparse
  split
  · exact asks_throw _
  refine (asks_invokeRelayJson nofun).bind fun answer => (asks_asPost answer).bind fun approved => ?_
  exact (asks_schedulePublications hparse _ _).bind fun _ => asks_pure _

end Posted

/-- The script reads the moment of the manifest, to the second, and schedules for nothing else, whatever
is answered. -/
structure KeepsInstant (p : PowerShell) (item : ManifestItem) (t : Time) : Prop where
  read : ∃ posted, p.parseDate (p.item item).scheduledFor = some posted ∧ SameSecond posted t
  posted : ∀ env file resolve c tr r,
    Calls (submitItem env (p.workstation file resolve) c (p.item item)) tr r →
    ∀ key data answer, (.api (.createPublication key data), answer) ∈ tr → SameSecond data.scheduledFor t

/-- **A batch keeps its dates exactly when the machine reads them as it prints them.** -/
theorem keepsInstant_iff {p : PowerShell} {item : ManifestItem} {t : Time}
    (date : p.jsonDate item.scheduledFor = some t) : KeepsInstant p item t ↔ Faithful p t := by
  rw [← read_iff date]
  refine ⟨fun h => h.read, fun h => ⟨h, fun env file resolve c tr r hcalls key data answer hmem => ?_⟩⟩
  obtain ⟨posted, hparse, hsame⟩ := h
  have hread := asks_submitItem (p.item item) tr r hcalls _ hmem key data rfl
  obtain rfl : posted = data.scheduledFor := Option.some.inj (hparse.symm.trans hread)
  exact hsame

namespace Sample

/-- A zone that is two hours ahead. -/
def ahead : Zone where
  utcOffset _ := 7200
  localOffset _ := 7200
  bounded _ := by decide
  unambiguous _ _ := rfl

/-- The first of September 2026, 08:30 in UTC. -/
def september : Time := days 20697 + seconds 30600

/-- A machine in that zone that is told the moment of one text. -/
def machine (culture : Culture) : PowerShell where
  zone := ahead
  culture := culture
  jsonDate text := if text = "2026-09-01T10:30:00+02:00" then some september else none
  otherDate _ := none
  representable text t h := by
    obtain ⟨-, h⟩ := Option.ite_none_right_eq_some.1 h
    cases h
    decide

/-- An item of that moment. -/
def dated : ManifestItem :=
  ⟨"tavisa-2026-09-01", "Title", "Body", ["1.png"], "", "2026-09-01T10:30:00+02:00"⟩

end Sample

/-- A culture with the month first. -/
theorem keepsInstant_iff_sample :
    KeepsInstant (Sample.machine ⟨true, .gregorian⟩) Sample.dated Sample.september :=
  (keepsInstant_iff rfl).2 ⟨rfl, .inl rfl, Zone.offset_of_unambiguous _ rfl fun t' h => by
    simpa [Zone.localTime, Sample.machine, Sample.ahead] using h⟩

/-- A culture with the day first, such as that of Spain: the ninth of January. -/
theorem not_keepsInstant : ¬ ∀ (p : PowerShell) (item : ManifestItem) (t : Time),
    p.jsonDate item.scheduledFor = some t → KeepsInstant p item t := by
  intro h
  obtain ⟨posted, hparse, hsame⟩ :=
    (h (Sample.machine ⟨false, .gregorian⟩) Sample.dated Sample.september rfl).read
  have hjanuary : (Sample.machine ⟨false, .gregorian⟩).parseDate
      ((Sample.machine ⟨false, .gregorian⟩).item Sample.dated).scheduledFor =
        some (days 20462 + seconds 30600) := by
    decide +kernel
  rw [hjanuary] at hparse
  cases hparse
  exact absurd hsame (by unfold SameSecond; decide +kernel)

end Relay
