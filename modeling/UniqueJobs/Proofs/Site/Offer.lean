import UniqueJobs.Proofs.Claimant.Replies
import UniqueJobs.Proofs.Site.Course
import UniqueJobs.Proofs.Store.Torn

/-!
Offers that break off. The locations of an instance are measured and sent one by one, in the order
of their configs, and the first failure ends the offer; what was sent before stays. Main statement:
`Claimant.Told.breaks_off`, for every store and every way of measuring, and for the store of a site
with what each location has done to the records.
-/

namespace UniqueJobs

open Entries

/-- The elements of a list are taken one after the other. -/
inductive Each {α σ : Type} (takes : α → σ → σ → Prop) : List α → σ → σ → Prop
  | nil (s : σ) : Each takes [] s s
  | cons {a : α} {rest : List α} {s s₁ s₂ : σ} (h : takes a s s₁) (hrest : Each takes rest s₁ s₂) :
      Each takes (a :: rest) s s₂

/-- All elements are taken, or those before the first that stops, and nothing is done after it. -/
inductive Proceeds {α σ ε : Type} (takes : α → σ → σ → Prop) (stops : α → σ → ε → σ → Prop)
    (l : List α) (s : σ) : Except ε Unit × σ → Prop
  | all {s' : σ} (h : Each takes l s s') : Proceeds takes stops l s (.ok (), s')
  | upTo {before after : List α} {a : α} {s₁ s₂ : σ} {e : ε} (hl : l = before ++ a :: after)
      (hbefore : Each takes before s s₁) (hstops : stops a s₁ e s₂) :
      Proceeds takes stops l s (.error e, s₂)

section

variable {α σ ε : Type} {takes takes' : α → σ → σ → Prop} {stops stops' : α → σ → ε → σ → Prop}

theorem Each.mono (htakes : ∀ a s s', takes a s s' → takes' a s s') {l : List α} {s s' : σ}
    (h : Each takes l s s') : Each takes' l s s' := by
  induction h with
  | nil s => exact .nil s
  | cons h _ ih => exact .cons (htakes _ _ _ h) ih

theorem Proceeds.mono (htakes : ∀ a s s', takes a s s' → takes' a s s')
    (hstops : ∀ a s e s', stops a s e s' → stops' a s e s') {l : List α} {s : σ}
    {r : Except ε Unit × σ} (h : Proceeds takes stops l s r) : Proceeds takes' stops' l s r := by
  cases h with
  | all h => exact .all (h.mono htakes)
  | upTo hl hbefore h => exact .upTo hl (hbefore.mono htakes) (hstops _ _ _ _ h)

theorem Proceeds.cons {a : α} {l : List α} {s s₁ : σ} {r : Except ε Unit × σ} (h : takes a s s₁)
    (hl : Proceeds takes stops l s₁ r) : Proceeds takes stops (a :: l) s r := by
  cases hl with
  | all hall => exact .all (.cons h hall)
  | upTo hl hbefore hstops => exact .upTo (by rw [hl]; rfl) (.cons h hbefore) hstops

/-- The last of some readings that have succeeded. -/
def lastRead {β : Type} (readings : List (Except ε β)) : Option β :=
  (readings.filterMap Except.toOption).getLast?

theorem lastRead_concat {β : Type} (readings : List (Except ε β)) (r : Except ε β) :
    lastRead (readings ++ [r]) = r.toOption.or (lastRead readings) := by
  cases r <;> simp [lastRead, Except.toOption]

theorem lastRead_eq_none_iff {β : Type} {readings : List (Except ε β)} :
    lastRead readings = none ↔ ∀ r ∈ readings, ∃ e, r = .error e := by
  rw [lastRead, List.getLast?_eq_none_iff, List.filterMap_eq_nil_iff]
  refine forall₂_congr fun r _ ↦ ?_
  cases r <;> simp [Except.toOption]

end

namespace Claimant

/-- What an instance has become by calls of any stores, and what its checks have read meanwhile: the
holder and the baselines, or nothing. -/
inductive Told (c : Claimant) :
    List (Except StoreError (JobId × Dictionary String)) → Claimant → Prop
  | nothing : Told c [] c
  | checked {readings : List (Except StoreError (JobId × Dictionary String))} {c' : Claimant}
      (h : Told c readings c') {σ : Type} (store : RecordStore (StateM σ))
      (emit : Event → StateM σ Unit) (window : Duration) (s : σ) :
      Told c (readings ++
          [(Id.run ((store.batch (c'.claimRequests window)).run s)).1.bind c'.readClaim])
        (Id.run ((c'.check store emit window).run s)).1.2
  | read {readings : List (Except StoreError (JobId × Dictionary String))} {c' : Claimant}
      (h : Told c readings c') {σ : Type} (store : RecordStore (StateM σ)) (s : σ) :
      Told c readings (Id.run ((c'.readLatest store).run s)).1.2

/-- An instance knows what the last check that succeeded has read. -/
theorem Told.known {c c' : Claimant}
    {readings : List (Except StoreError (JobId × Dictionary String))} (h : c.Told readings c') :
    c'.winner = ((lastRead readings).map Prod.fst).or c.winner ∧
      c'.baselines = ((lastRead readings).map Prod.snd).getD c.baselines := by
  induction h with
  | nothing => exact ⟨rfl, rfl⟩
  | @checked readings c' h σ store emit window s ih =>
    rw [lastRead_concat]
    rcases check_cases c' store emit window s with
      ⟨replies, winner, baselines, hanswer, hread, hr⟩ | ⟨e, hr, herror⟩
    · rw [hr, hanswer]
      simp [Except.bind, hread, Except.toOption]
    · rw [hr]
      cases hanswer : (Id.run ((store.batch (c'.claimRequests window)).run s)).1 with
      | error e => exact ih
      | ok replies =>
        simp only [Except.bind, herror replies hanswer]
        exact ih
  | @read readings c' h σ store s ih =>
    rcases readLatest_cases c' store s with ⟨d, hr, -⟩ | ⟨e, hr, -⟩
    all_goals
      rw [hr]
      exact ih

variable {σ : Type} (c : Claimant)

/-- A location is measured, against the baseline of its config or against itself where there is
none, and the store takes it. -/
inductive Puts (store : RecordStore (StateM σ)) (distance : Distance (StateM σ)) :
    String × String → σ → σ → Prop
  | mk {config location : String} {offset : Int64} {s s₁ s₂ : σ}
      (hmeasured : Id.run ((distance config location
        ((c.baselines.get? config).getD location)).run s) = (.ok offset, s₁))
      (hsent : Id.run ((store.run .advance [c.key.latest config, c.key.configs]
        [location, toString offset.toInt, toString c.settings.latestTtl.millis, config]).run s₁) =
          (.ok (), s₂)) : Puts store distance (config, location) s s₂

/-- A location cannot be measured or the store does not take it. -/
inductive Stops (store : RecordStore (StateM σ)) (distance : Distance (StateM σ)) :
    String × String → σ → ClaimError → σ → Prop
  | unmeasured {config location : String} {e : LsnError} {s s₁ : σ}
      (hmeasured : Id.run ((distance config location
        ((c.baselines.get? config).getD location)).run s) = (.error e, s₁)) :
      Stops store distance (config, location) s (.distance config e.message) s₁
  | untaken {config location : String} {offset : Int64} {e : StoreError} {s s₁ s₂ : σ}
      (hmeasured : Id.run ((distance config location
        ((c.baselines.get? config).getD location)).run s) = (.ok offset, s₁))
      (hsent : Id.run ((store.run .advance [c.key.latest config, c.key.configs]
        [location, toString offset.toInt, toString c.settings.latestTtl.millis, config]).run s₁) =
          (.error e, s₂)) : Stops store distance (config, location) s (.store e) s₂

theorem offer_proceeds (store : RecordStore (StateM σ)) (distance : Distance (StateM σ))
    (locations : List (String × String)) (s : σ) :
    Proceeds (c.Puts store distance) (c.Stops store distance) locations s
      (Id.run ((c.offer store distance locations).run s)) := by
  induction locations generalizing s with
  | nil => exact .all (.nil s)
  | cons head rest ih =>
    obtain ⟨config, location⟩ := head
    rw [offer, StateT.run_bind, Id.run_bind]
    rcases hmeasured : Id.run ((distance config location
      ((c.baselines.get? config).getD location)).run s) with ⟨e | offset, s₁⟩
    · exact .upTo rfl (.nil s) (.unmeasured hmeasured)
    simp only [StateT.run_bind, Id.run_bind]
    rcases hsent : Id.run ((store.run .advance [c.key.latest config, c.key.configs]
      [location, toString offset.toInt, toString c.settings.latestTtl.millis, config]).run s₁) with
      ⟨e | u, s₂⟩
    · exact .upTo rfl (.nil s) (.untaken hmeasured hsent)
    · exact .cons (.mk hmeasured hsent) (ih s₂)

/-! ### At a site -/

/-- The script that offers a location, with the offset that was measured. -/
def advance (config location : String) (offset : Int64) (now : Instant) :
    Entries → Except StoreError Unit × Entries :=
  Entries.runProcedure now .advance [c.key.latest config, c.key.configs]
    [location, toString offset.toInt, toString c.settings.latestTtl.millis, config]

/-- The script of a location takes effect. -/
inductive Lands (distance : Distance (StateM Site)) : String × String → Site → Site → Prop
  | mk {config location : String} {offset : Int64} {s s₁ s₂ : Site}
      (hmeasured : Id.run ((distance config location
        ((c.baselines.get? config).getD location)).run s) = (.ok offset, s₁))
      (hok : (c.advance config location offset s₁.clock s₁.store.entries).1 = .ok ())
      (hentries : s₂.store.entries =
        (c.advance config location offset s₁.clock s₁.store.entries).2)
      (hsteady : Site.Steady s₁ s₂) : Lands distance (config, location) s s₂

/-- A location ends the offer. Where the script fails there is no trace of it in the records, but
for a script that finds no set under the key of the configs: its position is in the list by then. -/
inductive Fails (distance : Distance (StateM Site)) :
    String × String → Site → ClaimError → Site → Prop
  | unmeasured {config location : String} {e : LsnError} {s s₁ : Site}
      (hmeasured : Id.run ((distance config location
        ((c.baselines.get? config).getD location)).run s) = (.error e, s₁)) :
      Fails distance (config, location) s (.distance config e.message) s₁
  | untaken {config location : String} {offset : Int64} {e : StoreError} {s s₁ s₂ : Site}
      (hmeasured : Id.run ((distance config location
        ((c.baselines.get? config).getD location)).run s) = (.ok offset, s₁))
      (hsteady : Site.Steady s₁ s₂)
      (hsame : ∀ name, s₂.store.entries.live? s₁.clock name =
        s₁.store.entries.live? s₁.clock name) : Fails distance (config, location) s (.store e) s₂
  | torn {config location : String} {offset : Int64} {s s₁ s₂ : Site}
      (hmeasured : Id.run ((distance config location
        ((c.baselines.get? config).getD location)).run s) = (.ok offset, s₁))
      (hsteady : Site.Steady s₁ s₂)
      (hset : registered (s₁.store.entries.live? s₁.clock c.key.configs) = none)
      (hlist : ∀ name, s₂.store.entries.live? s₁.clock name =
        if c.key.latest config = name then
          raised location offset (deadline s₁.clock (.ofMillis c.settings.latestTtl.millis))
            (s₁.store.entries.live? s₁.clock (c.key.latest config))
        else s₁.store.entries.live? s₁.clock name) :
      Fails distance (config, location) s (.store (.wrongType c.key.configs)) s₂

theorem eq_of_readNat_toString {n m bound : Nat}
    (h : Text.readNat 10 bound (toString n).toList = .ok m) : m = n := by
  have htext : (toString n).toList = n.repr.toList := rfl
  rw [htext] at h
  by_cases hn : n ≤ bound
  · exact (Except.ok.inj ((Text.readNat_repr hn).symm.trans h)).symm
  · cases (Text.readNat_repr_of_lt (Nat.lt_of_not_le hn)).symm.trans h

theorem advance_of_error {config location : String} {offset : Int64} {now : Instant}
    {es : Entries} {e : StoreError} (h : (c.advance config location offset now es).1 = .error e) :
    let es' := (c.advance config location offset now es).2
    (∀ name, es'.live? now name = es.live? now name) ∨
      e = .wrongType c.key.configs ∧ registered (es.live? now c.key.configs) = none ∧
      ∀ name, es'.live? now name = if c.key.latest config = name then
        raised location offset (deadline now (.ofMillis c.settings.latestTtl.millis))
          (es.live? now (c.key.latest config))
        else es.live? now name := by
  intro es'
  rcases Entries.advance_of_error h with hsame | ⟨list, ev, rfl, hkeys, hargs, htorn⟩
  · exact .inl hsame
  obtain ⟨hfails, heffect⟩ := htorn.advance
  obtain ⟨nowᵥ, configs, locationᵥ, offsetText, offsetᵥ, hoffset, ttlText, ttl, httl, configᵥ⟩ := ev
  simp only [List.cons.injEq, and_true] at hkeys hargs
  obtain ⟨rfl, rfl⟩ := hkeys
  obtain ⟨rfl, rfl, rfl, rfl⟩ := hargs
  obtain rfl := Except.ok.inj ((Text.readInt64_toString offset).symm.trans hoffset)
  obtain rfl := eq_of_readNat_toString httl
  refine .inr ⟨Except.error.inj (h.symm.trans hfails), ?_, heffect⟩
  rcases htorn.unjoined with heq | hset
  · exact absurd heq (Record.latest_ne_configs c.key config)
  · exact hset

variable {c} {distance : Distance (StateM Site)}

/-- A script that is sent is refused with no effect, or it is carried out. -/
theorem sent_cases {config location : String} {offset : Int64} {s s' : Site}
    {r : Except StoreError Unit}
    (hsent : Id.run ((Site.recordStore.run .advance [c.key.latest config, c.key.configs]
      [location, toString offset.toInt, toString c.settings.latestTtl.millis, config]).run s) =
        (r, s')) :
    Site.Steady s s' ∧ ((∃ e, r = .error e) ∧ s'.store.entries = s.store.entries ∨
      r = (c.advance config location offset s.clock s.store.entries).1 ∧
        s'.store.entries = (c.advance config location offset s.clock s.store.entries).2) := by
  have hcall : s.call .run (c.advance config location offset s.clock) = (r, s') :=
    (Site.run_recordStore_run (m := Id) .advance _ _ s).symm.trans hsent
  have hsteady := @Site.steady_call _ .run (c.advance config location offset s.clock) s
  rw [hcall] at hsteady
  refine ⟨hsteady, ?_⟩
  cases hrefusal : s.refusal? .run with
  | some e =>
    have hrefused := Site.call_of_refusal_eq_some
      (f := c.advance config location offset s.clock) hrefusal
    rw [hcall] at hrefused
    exact .inl ⟨⟨e, hrefused.1⟩, hrefused.2⟩
  | none =>
    have hdone := Site.call_of_refusal_eq_none
      (f := c.advance config location offset s.clock) hrefusal
    rw [hcall] at hdone
    exact .inr hdone

theorem Puts.lands {a : String × String} {s s' : Site}
    (h : c.Puts (Site.recordStore (m := Id)) distance a s s') : c.Lands distance a s s' := by
  cases h with
  | mk hmeasured hsent =>
    obtain ⟨hsteady, ⟨⟨e, he⟩, -⟩ | ⟨hok, hentries⟩⟩ := sent_cases hsent
    · cases he
    · exact .mk hmeasured hok.symm hentries hsteady

theorem Stops.fails {a : String × String} {s s' : Site} {e : ClaimError}
    (h : c.Stops (Site.recordStore (m := Id)) distance a s e s') : c.Fails distance a s e s' := by
  cases h with
  | unmeasured hmeasured => exact .unmeasured hmeasured
  | untaken hmeasured hsent =>
    obtain ⟨hsteady, ⟨-, hentries⟩ | ⟨hfails, hentries⟩⟩ := sent_cases hsent
    · exact .untaken hmeasured hsteady fun name ↦ by rw [hentries]
    · rcases c.advance_of_error hfails.symm with hsame | ⟨rfl, hset, hlist⟩
      · rw [← hentries] at hsame
        exact .untaken hmeasured hsteady hsame
      · rw [← hentries] at hlist
        exact .torn hmeasured hsteady hset hlist

theorem ne_notChecked {σ : Type} {store : RecordStore (StateM σ)} {distance : Distance (StateM σ)}
    {locations : List (String × String)} {s : σ} {r : Except ClaimError Unit × σ}
    (h : Proceeds (c.Puts store distance) (c.Stops store distance) locations s r) :
    r.1 ≠ .error .notChecked := by
  cases h with
  | all => simp
  | upTo _ _ hstops =>
    cases hstops with
    | unmeasured | untaken => simp

/-- An instance that has locations and was never told of a holder offers nothing and says so. Any
other one offers them in the order of their configs, each measured against the baseline that its
last check has read, up to the first that is not measured or not taken, and returns that failure.
At a site the scripts before the failure have taken effect, and `Fails` tells what the failing one
leaves. -/
theorem Told.breaks_off {settings : Settings} {worker : Option Worker} {job : Job}
    {readings : List (Except StoreError (JobId × Dictionary String))}
    (h : (ofJob settings worker job).1.Told readings c) :
    let unchecked := c.locations.isEmpty = false ∧ ∀ reading ∈ readings, ∃ e, reading = .error e
    c.locations.keys.Pairwise (· < ·) ∧
    c.winner = (lastRead readings).map Prod.fst ∧
    c.baselines = ((lastRead readings).map Prod.snd).getD .empty ∧
    (∀ {σ : Type} (store : RecordStore (StateM σ)) (distance : Distance (StateM σ)) (s : σ),
      let r := Id.run ((c.offerLocations store distance).run s)
      (unchecked → r = (.error .notChecked, s)) ∧
      (¬ unchecked → r.1 ≠ .error .notChecked ∧
        Proceeds (c.Puts store distance) (c.Stops store distance) c.locations.entries s r)) ∧
    ∀ (distance : Distance (StateM Site)) (s : Site), ¬ unchecked →
      Proceeds (c.Lands distance) (c.Fails distance) c.locations.entries s
        (Id.run ((c.offerLocations Site.recordStore distance).run s)) := by
  intro unchecked
  obtain ⟨hwinner, hbaselines⟩ := h.known
  have hnone : (ofJob settings worker job).1.winner = none := rfl
  rw [hnone, Option.or_none] at hwinner
  have hunchecked : unchecked ↔ c.locations.isEmpty = false ∧ c.winner.isNone = true := by
    rw [hwinner, Option.isNone_map, Option.isNone_iff_eq_none, lastRead_eq_none_iff]
  have hproceeds {σ : Type} (store : RecordStore (StateM σ)) (distance : Distance (StateM σ))
      (s : σ) (hchecked : ¬ unchecked) :
      Proceeds (c.Puts store distance) (c.Stops store distance) c.locations.entries s
        (Id.run ((c.offerLocations store distance).run s)) := by
    rw [hunchecked, not_and] at hchecked
    rw [offerLocations]
    by_cases hempty : c.locations.isEmpty = true
    · have hnil : c.locations.entries = [] := by simpa [Dictionary.isEmpty] using hempty
      rw [if_pos hempty, hnil]
      exact .all (.nil s)
    · rw [if_neg hempty, if_neg (hchecked (eq_false_of_ne_true hempty))]
      exact c.offer_proceeds store distance c.locations.entries s
  refine ⟨c.locations.keys_ascending, hwinner, hbaselines, ?_, ?_⟩
  · intro σ store distance s r
    refine ⟨fun hnever ↦ ?_, fun hchecked ↦ ?_⟩
    · obtain ⟨hsome, hnever⟩ := hunchecked.mp hnever
      have hoffer : c.offerLocations store distance = pure (.error .notChecked) := by
        rw [offerLocations, if_neg (ne_true_of_eq_false hsome), if_pos hnever]
      simp only [r, hoffer]
      rfl
    · have hr : Proceeds _ _ _ s r := hproceeds store distance s hchecked
      exact ⟨ne_notChecked hr, hr⟩
  · intro distance s hchecked
    exact (hproceeds Site.recordStore distance s hchecked).mono (fun _ _ _ ↦ Puts.lands)
      fun _ _ _ _ ↦ Stops.fails

/-- An instance with locations for two configs, one of which is no position in the log. -/
def reporter : Claimant :=
  (ofJob .default none { Job.new ⟨"a"⟩ "w" [] with
    locations := .ofList [("main", "0/1"), ("spare", "?")], key := some "k" }).1

/-- The instance after its check at a new site, and the site. -/
def reported : Claimant × Site :=
  let r := Id.run ((reporter.check Site.recordStore Site.emit (.ofMillis 1000)).run (.opened 0 ⟨0⟩))
  (r.1.2, r.2)

theorem told_reported : reporter.Told [.ok (⟨"a"⟩, reporter.locations)] reported.1 :=
  .checked .nothing Site.recordStore Site.emit (.ofMillis 1000) (.opened 0 ⟨0⟩)

set_option maxRecDepth 10000 in
theorem Told.breaks_off_reported :
    Id.run ((reporter.offerLocations Site.recordStore Distance.lsn).run (.opened 0 ⟨0⟩)) =
      (.error .notChecked, .opened 0 ⟨0⟩) ∧
    let r := Id.run ((reported.1.offerLocations Site.recordStore Distance.lsn).run reported.2)
    Proceeds (reported.1.Lands Distance.lsn) (reported.1.Fails Distance.lsn)
        [("main", "0/1"), ("spare", "?")] reported.2 r ∧
      (∃ reason, r.1 = .error (.distance "spare" reason)) ∧
      r.2.store.contains r.2.clock "k:main:wal_location" = true ∧
      r.2.store.contains r.2.clock "k:spare:wal_location" = false := by
  obtain ⟨-, -, -, hunchecked, -⟩ := Told.breaks_off (.nothing (c := reporter))
  obtain ⟨-, -, -, -, hchecked⟩ := told_reported.breaks_off
  have hbefore := (hunchecked Site.recordStore Distance.lsn (.opened 0 ⟨0⟩)).1 ⟨rfl, by simp⟩
  have hafter := hchecked Distance.lsn reported.2 (by simp)
  exact ⟨hbefore, hafter, ⟨_, rfl⟩, rfl, rfl⟩

/-- An instance of a job whose key is the name of the set of configs of the other one. -/
def squatter : Claimant :=
  (ofJob .default none { Job.new ⟨"b"⟩ "v" [] with key := some "k:wal_configs" }).1

/-- The site once the window of the first job has been released and the other one has claimed its
own. -/
def squatted : Site :=
  let released := (Id.run ((reported.1.release Site.recordStore Site.emit).run reported.2)).2
  (Id.run ((squatter.check Site.recordStore Site.emit (.ofMillis 1000)).run released)).2

/-- Every location is where its baseline is. -/
def still : Distance (StateM Site) := fun _ _ _ ↦ pure (.ok 0)

set_option maxRecDepth 10000 in
/-- The first of the locations fails, and its position stands in the store. -/
theorem not_failsWithoutTrace :
    ¬ ∀ (settings : Settings) (worker : Option Worker) (job : Job)
      (readings : List (Except StoreError (JobId × Dictionary String))) (c : Claimant),
      (ofJob settings worker job).1.Told readings c → c.winner ≠ none →
      ∀ (distance : Distance (StateM Site)) (s s' : Site) (e : ClaimError),
        Id.run ((c.offerLocations Site.recordStore distance).run s) = (.error e, s') →
        ∃ before after s₁, c.locations.entries = before ++ after ∧ after ≠ [] ∧
          Each (c.Lands distance) before s s₁ ∧ ∀ name,
            s'.store.entries.live? s'.clock name = s₁.store.entries.live? s'.clock name := by
  intro h
  have hwinner : reported.1.winner = some ⟨"a"⟩ := rfl
  obtain ⟨before, after, s₁, hentries, hafter, hbefore, hsame⟩ := h _ _ _ _ _ told_reported
    (by simp [hwinner]) still squatted _ _ rfl
  rcases before with _ | ⟨first, rest⟩
  · cases hbefore
    have hmain := hsame "k:main:wal_location"
    exact absurd hmain (by decide +kernel)
  · -- The script of the first location finds a text where it looks for the set.
    obtain ⟨rfl, -⟩ := List.cons.inj hentries
    rcases hbefore with _ | ⟨hfirst, -⟩
    cases hfirst with
    | mk hmeasured hok =>
      obtain ⟨hoffset, rfl⟩ := Prod.mk.inj hmeasured
      obtain rfl := Except.ok.inj hoffset
      have herror : (reported.1.advance "main" "0/1" 0 squatted.clock
          squatted.store.entries).1 = .error (.wrongType "k:wal_configs") := rfl
      cases herror.symm.trans hok

end Claimant

end UniqueJobs
