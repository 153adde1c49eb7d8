import UniqueJobs.Proofs.Journal.Remain
import UniqueJobs.Proofs.Traffic.Ownership

/-!
The flag of a key along a journal. Only a drop sets it, only a release or its own expiry takes it
away, and each drop stands right after the call that sets it. Main statements: `Chain.flag?_cases`
and `Happens.flagging`.
-/

namespace UniqueJobs

open Entries

/-- Does a job of the worker run again after an instance was dropped? -/
def Site.RunsAgain (s : Site) (worker : String) : Prop :=
  ((s.workers.get? worker).getD .unknown).uniqueness.afterDrop = .runAgain

def Site.flag? (k : JobKey) (s : Site) : Option Entry := s.store.entries.live? s.clock k.flag

/-- How long an instance that comes to the site would hold the window. -/
def Site.windowFor? (settings : Settings) (job : Job) (s : Site) : Option Duration :=
  s.date?.map (Claimant.ofJob settings (s.workers.get? job.worker) job).1.window

/-- Is it how long the caller, one of the arrivals, would hold the window? -/
def OwnWindow (settings : Settings) (arrivals : List Arrival) (caller : Caller) (s : Site)
    (window : Duration) : Prop :=
  ∃ a ∈ arrivals, a.caller = caller ∧ s.windowFor? settings a.job = some window

def Note.SetsFlag (k : JobKey) (n : Note) : Prop :=
  ∃ caller ttl failure before after,
    n = .called caller (.setIfAbsent k.flag "1" ttl) failure before after

def Note.Drops (n : Note) : Prop := ∃ caller J site, n = .scheduled caller (.ok (.dropped J)) site

/-- No waiting outlasts the flag. -/
def FlagStays (k : JobKey) (log : List Note) : Prop :=
  ∀ before after, .waited before after ∈ log → (before.flag? k).isSome = true →
    (after.flag? k).isSome = true

/-- Is there a note of a kind with no release of the key after it? -/
def Since (k : JobKey) (Q : Note → Prop) (log : List Note) : Prop :=
  ∃ first n rest, log = first ++ n :: rest ∧ Q n ∧ ∀ m ∈ rest, ¬ m.Releases k

variable {settings : Settings} {strategy : Strategy} {k : JobKey} {M : Measures} {caller : Caller}
  {n : Note} {s s' : Site} {notes more : List Note} {e : Entry} {worker : String}

theorem Site.Later.runsAgain {d : Nat} (h : s.Later d s') (hs : s.RunsAgain worker) :
    s'.RunsAgain worker := by
  rw [Site.RunsAgain, h.workers]
  exact hs

theorem Site.Like.windowFor? (h : s.Like s') (job : Job) :
    s'.windowFor? settings job = s.windowFor? settings job := by
  rw [Site.windowFor?, Site.windowFor?, h.date?, h.workers]

theorem Site.Like.runsAgain (h : s.Like s') (hs : s.RunsAgain worker) : s'.RunsAgain worker :=
  h.later.runsAgain hs

theorem Site.Still.flag? (h : s.Still s') (k : JobKey) : s'.flag? k = s.flag? k := by
  rw [Site.flag?, Site.flag?, h.clock, h.store]

/-- Nothing but a drop sets the flag, and only a release takes it away. -/
theorem Contact.live?_flag {now : Instant} {es : Entries} {c : Claimant} {contact : Contact}
    (hset : ∀ ttl, contact ≠ .setFlag ttl) (hrelease : contact ≠ .release) :
    live? now c.key.flag (contact.effect c now es) = es.live? now c.key.flag := by
  cases contact with
  | claim window =>
    have hclaim := @Claimant.live?_claim now c window es .flag
    rw [Claimant.claimed_of_ne_configs (by simp)] at hclaim
    exact hclaim.trans Option.or_none
  | advance config location offset =>
    have hlist : Record.latest config ≠ .flag := by simp
    have hset : Record.configs ≠ .flag := by simp
    have hlist' : c.key.latest config ≠ c.key.flag := Record.name_ne c.key hlist
    have hset' : c.key.configs ≠ c.key.flag := Record.name_ne c.key hset
    have hne := Record.latest_ne_configs c.key config
    rcases @live?_advance now _ _ hne location (toString offset.toInt)
      (toString c.settings.latestTtl.millis) config es with hsame | ⟨o, millis, -, hlive⟩
    · exact hsame _
    · exact (hlive _).trans (by rw [if_neg hlist', if_neg hset'])
  | readLatest => exact live?_carryOutAll_of_reads c.latestReads_reads es _
  | setFlag ttl => exact absurd rfl (hset ttl)
  | readFlag => exact live?_getText c.key.flag _ es
  | release => exact absurd rfl hrelease

theorem Contact.setsFlag_setFlag (caller : Caller) (c : Claimant) (ttl : Duration) (s : Site) :
    ((Contact.setFlag ttl).note caller c s).SetsFlag c.key :=
  ⟨_, _, _, _, _, rfl⟩

theorem Move.flag?_cases (hn : Move k M n) (hs : Sound k n.before.clock n.before.store.entries)
    (h : n.after.flag? k = some e) :
    (n.before.flag? k = some e ∧ ¬ n.Releases k) ∨ n.SetsFlag k := by
  cases hn with
  | mark hmark =>
    rw [Note.after_eq_before hmark] at h
    exact .inl ⟨h, Note.not_releases_of_isMark hmark⟩
  | @wait s d =>
    have hle : s.clock.nanos ≤ (s.advance d).clock.nanos := Nat.le_add_right _ _
    change s.store.entries.live? (s.advance d).clock k.flag = some e at h
    rw [live?_of_le hle, Option.filter_eq_some_iff] at h
    exact .inl ⟨h.1, by rintro ⟨_, _, _, _, _, ⟨⟩⟩⟩
  | touch htouch =>
    have hreleases := htouch.not_releases
    cases htouch with
    | @intro c contact s hkey hrelease _ =>
      subst hkey
      by_cases hset : ∃ ttl, contact = .setFlag ttl
      · obtain ⟨ttl, rfl⟩ := hset
        exact .inr (Contact.setsFlag_setFlag _ _ _ _)
      · have hlive := @Contact.live?_flag s.clock s.store.entries c contact
          (fun ttl heq ↦ hset ⟨ttl, heq⟩) hrelease
        exact .inl ⟨hlive.symm.trans h, hreleases⟩
  | @release _ c s hkey =>
    subst hkey
    have hnone := (hs.release_eq_none c.locations.keys).2 .flag
    cases hnone.symm.trans h

theorem Since.append {Q : Note → Prop} (h : Since k Q more) (notes : List Note) :
    Since k Q (notes ++ more) := by
  obtain ⟨first, n, rest, rfl, hn, hrest⟩ := h
  exact ⟨notes ++ first, n, rest, (List.append_assoc ..).symm, hn, hrest⟩

/-- A flag that is live at the end was live at the beginning and has not been released, or else a
note that sets it is among those since the last release. -/
theorem Chain.flag?_cases (h : Chain (Move k M) s notes s')
    (hs : Sound k s.clock s.store.entries) (hflag : s'.flag? k = some e) :
    (s.flag? k = some e ∧ ∀ n ∈ notes, ¬ n.Releases k) ∨
      Since k (fun n ↦ n.SetsFlag k ∧ n.after.flag? k = some e) notes := by
  induction h with
  | rest hstill => exact .inl ⟨(hstill.flag? k).symm.trans hflag, by simp⟩
  | @step n s s' notes hstill hn hrest ih =>
    rw [← hstill.clock, ← hstill.store] at hs
    rcases ih (hn.sound hs) hflag with ⟨hafter, hreleases⟩ | hsince
    · rcases hn.flag?_cases hs hafter with ⟨hbefore, hrelease⟩ | hset
      · refine .inl ⟨(hstill.flag? k).symm.trans hbefore, ?_⟩
        exact List.forall_mem_cons.mpr ⟨hrelease, hreleases⟩
      · exact .inr ⟨[], n, notes, rfl, ⟨hset, hafter⟩, hreleases⟩
    · exact .inr (hsince.append [n])

/-- Notes in which a drop follows each call that sets the flag, and each drop such a call, `W` being
what holds of the time for which the flag is set. -/
inductive Flagging (k : JobKey) (W : Caller → Site → Duration → Prop) : List Note → Prop
  | nil : Flagging k W []
  | plain {n : Note} {rest : List Note} (hset : ¬ n.SetsFlag k) (hdrop : ¬ n.Drops)
      (hrest : Flagging k W rest) : Flagging k W (n :: rest)
  | dropped {caller : Caller} {ttl : Duration} {failure : Option StoreError}
      {before after : Site} {n : Note} {rest : List Note} (hW : W caller before ttl)
      (hdrop : n.Drops) (hcaller : n.caller? = some caller) (hrest : Flagging k W rest) :
      Flagging k W (.called caller (.setIfAbsent k.flag "1" ttl) failure before after :: n :: rest)

theorem Note.SetsFlag.not_drops (h : n.SetsFlag k) : ¬ n.Drops := by
  obtain ⟨_, _, _, _, _, rfl⟩ := h
  rintro ⟨_, _, _, ⟨⟩⟩

theorem Note.Drops.not_setsFlag (h : n.Drops) : ¬ n.SetsFlag k := fun hset ↦ hset.not_drops h

namespace Flagging

variable {W : Caller → Site → Duration → Prop}

theorem append (h : Flagging k W notes) (h' : Flagging k W more) :
    Flagging k W (notes ++ more) := by
  induction h with
  | nil => exact h'
  | plain hset hdrop _ ih => exact .plain hset hdrop ih
  | dropped hW hdrop hcaller _ ih => exact .dropped hW hdrop hcaller ih

theorem imp {W' : Caller → Site → Duration → Prop} (h : Flagging k W notes)
    (hW : ∀ caller before ttl, W caller before ttl → W' caller before ttl) :
    Flagging k W' notes := by
  induction h with
  | nil => exact .nil
  | plain hset hdrop _ ih => exact .plain hset hdrop ih
  | dropped h hdrop hcaller _ ih => exact .dropped (hW _ _ _ h) hdrop hcaller ih

theorem of_forall (h : ∀ n ∈ notes, ¬ n.SetsFlag k ∧ ¬ n.Drops) : Flagging k W notes := by
  induction notes with
  | nil => exact .nil
  | cons n rest ih =>
    obtain ⟨hn, hrest⟩ := List.forall_mem_cons.mp h
    exact .plain hn.1 hn.2 (ih hrest)

theorem exists_drop {first rest : List Note} (h : Flagging k W (first ++ n :: rest))
    (hn : n.SetsFlag k) : ∃ m rest', rest = m :: rest' ∧ m.Drops := by
  generalize hlog : first ++ n :: rest = log at h
  induction h generalizing first with
  | nil => simp at hlog
  | plain hset _ _ ih =>
    cases first with
    | nil =>
      obtain ⟨rfl, rfl⟩ := List.cons.inj hlog
      exact absurd hn hset
    | cons _ first => exact ih (List.cons.inj hlog).2
  | dropped _ hdrop _ _ ih =>
    match first, hlog with
    | [], hlog =>
      obtain ⟨rfl, rfl⟩ := List.cons.inj hlog
      exact ⟨_, _, rfl, hdrop⟩
    | [_], hlog =>
      obtain ⟨rfl, rfl⟩ := List.cons.inj (List.cons.inj hlog).2
      exact absurd hn hdrop.not_setsFlag
    | _ :: _ :: first, hlog => exact ih (List.cons.inj (List.cons.inj hlog).2).2

theorem exists_setsFlag {first rest : List Note} (h : Flagging k W (first ++ n :: rest))
    (hn : n.Drops) (hcaller : n.caller? = some caller) : ∃ early ttl failure before after,
      first = early ++ [.called caller (.setIfAbsent k.flag "1" ttl) failure before after] ∧
        W caller before ttl := by
  generalize hlog : first ++ n :: rest = log at h
  induction h generalizing first with
  | nil => simp at hlog
  | plain _ hdrop _ ih =>
    cases first with
    | nil =>
      obtain ⟨rfl, rfl⟩ := List.cons.inj hlog
      exact absurd hn hdrop
    | cons m first =>
      obtain ⟨early, ttl, failure, before, after, rfl, hW⟩ := ih (List.cons.inj hlog).2
      exact ⟨m :: early, ttl, failure, before, after, rfl, hW⟩
  | dropped hW _ hcaller' _ ih =>
    match first, hlog with
    | [], hlog =>
      obtain ⟨rfl, rfl⟩ := List.cons.inj hlog
      obtain ⟨_, _, _, ⟨⟩⟩ := hn
    | [_], hlog =>
      obtain ⟨rfl, htail⟩ := List.cons.inj hlog
      obtain ⟨rfl, -⟩ := List.cons.inj htail
      obtain rfl := Option.some.inj (hcaller'.symm.trans hcaller)
      exact ⟨[], _, _, _, _, rfl, hW⟩
    | p :: q :: first, hlog =>
      obtain ⟨early, ttl, failure, before, after, rfl, hW⟩ :=
        ih (List.cons.inj (List.cons.inj hlog).2).2
      exact ⟨p :: q :: early, ttl, failure, before, after, rfl, hW⟩

end Flagging

def Note.Plain (k : JobKey) (n : Note) : Prop := ¬ n.SetsFlag k ∧ ¬ n.Drops

theorem Contact.plain {c : Claimant} {contact : Contact} (h : ∀ ttl, contact ≠ .setFlag ttl) :
    (contact.note caller c s).Plain k := by
  constructor
  · rintro ⟨_, _, _, _, _, heq⟩
    have hcall := (Note.called.inj heq).2.1
    cases contact with
    | setFlag ttl => exact h ttl rfl
    | claim | advance | readLatest | readFlag | release => cases hcall
  · rintro ⟨_, _, _, ⟨⟩⟩

theorem Calls.plain {c : Claimant} {contacts : List Contact}
    (h : Calls caller c contacts s notes s') (hall : ∀ contact ∈ contacts, ∀ ttl,
      contact ≠ .setFlag ttl) : ∀ n ∈ notes, n.Plain k := by
  intro n hn
  obtain ⟨contact, hcontact, s₁, rfl⟩ := h.exists_contact n hn
  exact Contact.plain (hall contact hcontact)

theorem Outcome.plain {o : Outcome} (h : ∀ winner, o ≠ .barred winner) :
    (o.note caller s).Plain k := by
  rw [Outcome.note]
  cases caller.stage with
  | perform => exact ⟨by rintro ⟨_, _, _, _, _, ⟨⟩⟩, by rintro ⟨_, _, _, ⟨⟩⟩⟩
  | schedule =>
    refine ⟨by rintro ⟨_, _, _, _, _, ⟨⟩⟩, ?_⟩
    rintro ⟨_, winner, _, heq⟩
    have hresult := (Note.scheduled.inj heq).2.1
    cases o with
    | ended result => cases result <;> cases hresult
    | barred winner => exact h winner rfl
    | refused => cases hresult

theorem Claimant.runsAgain_ofJob {job : Job} (hs : s.RunsAgain job.worker) :
    (Claimant.ofJob settings (s.workers.get? job.worker) job).1.runsAgain = true := by
  have hworker := (Claimant.ofJob_facts settings (s.workers.get? job.worker) job).1
  rw [runsAgain, uniqueness, workerOrUnknown, hworker]
  exact decide_eq_true hs

namespace Pass

variable {p : Pass} {job : Job}

theorem Reads.plain (h : p.Reads s notes job s') : ∀ n ∈ notes, n.Plain k := by
  cases h with
  | schedule => simp
  | perform _ h =>
    cases h with
    | nothing => simp
    | failed _ h => exact h.plain (by simp)
    | answered _ _ h => exact h.plain (by simp)

theorem Claims.plain {winner : JobId} (h : p.Claims winner s notes s') :
    ∀ n ∈ notes, n.Plain k := by
  cases h with
  | intro hclaim _ _ hcalls hoffers =>
    refine List.forall_mem_append.mpr ⟨hclaim.plain (by simp), hcalls.plain ?_⟩
    rintro contact hcontact ttl rfl
    obtain ⟨_, _, _, heq, -⟩ := hoffers _ hcontact
    cases heq

theorem Enters.plain {held : Bool} (h : p.Enters s held notes job s') :
    ∀ n ∈ notes, n.Plain k := by
  cases h with
  | bypass => simp
  | unasked _ _ hread => exact hread.plain
  | unanswered _ _ hread hclaim =>
    exact List.forall_mem_append.mpr ⟨hread.plain, hclaim.plain (by simp)⟩
  | own _ hread hclaims => exact List.forall_mem_append.mpr ⟨hread.plain, hclaims.plain⟩

theorem Leaves.plain {held : Bool} {result : Except String Unit}
    (h : p.Leaves s held result notes s') : ∀ n ∈ notes, n.Plain k := by
  intro n hn
  obtain ⟨contact, s₁, rfl, hcontact⟩ := h.exists_contact n hn
  apply Contact.plain
  rintro ttl rfl
  simp at hcontact

theorem Barred.flagging {o : Outcome} (h : p.Barred s o notes s') (hkey : p.claimant.key = k)
    (hagain : p.claimant.runsAgain = true) :
    Flagging k (fun caller before ttl ↦ caller = p.caller ∧ s.Like before ∧
      s.date?.map p.claimant.window = some ttl) (notes ++ [o.note p.caller s']) := by
  cases h with
  | @refused _ e _ _ _ _ _ _ hread hclaim =>
    have hlast : ((Outcome.refused e).note p.caller s').Plain k := Outcome.plain (by simp)
    apply Flagging.of_forall
    simp only [List.forall_mem_append, List.forall_mem_singleton]
    exact ⟨⟨hread.plain, hclaim.plain (by simp)⟩, hlast⟩
  | @foreign winner ttl notes more last job s₁ s₂ _ _ hread hclaims _ hflag hwindow =>
    have hplain : ∀ n ∈ notes ++ more, n.Plain k :=
      List.forall_mem_append.mpr ⟨hread.plain, hclaims.plain⟩
    rw [List.append_assoc]
    apply (Flagging.of_forall hplain).append
    cases hstage : p.caller.stage with
    | schedule =>
      rw [flagWrites_of_schedule hstage, Claimant.flagWrites, if_pos hagain] at hflag
      cases hflag with
      | call hquiet hrest =>
        cases hrest
        subst hkey
        have hlike := (hread.like.trans hclaims.like).trans hquiet.like
        refine .dropped ⟨rfl, hlike, hwindow⟩ ⟨p.caller, winner, s', ?_⟩
          (Outcome.caller?_note ..) .nil
        rw [Outcome.note, hstage]
        rfl
    | perform =>
      rw [flagWrites_of_perform hstage] at hflag
      cases hflag
      refine .plain ?_ ?_ .nil
      · rw [Outcome.note, hstage]
        rintro ⟨_, _, _, _, _, ⟨⟩⟩
      · rw [Outcome.note, hstage]
        rintro ⟨_, _, _, ⟨⟩⟩

theorem runsAgain_ofJob {measure : String → String → String → Except LsnError Int64}
    (hs : s.RunsAgain job.worker) :
    (ofJob settings strategy measure caller (s.workers.get? job.worker) job).claimant.runsAgain =
      true := Claimant.runsAgain_ofJob hs

end Pass

/-- In all that happens, every drop stands right after the call that sets the flag for it, for as long
as the instance that is dropped would hold the window. -/
theorem Happens.flagging {t : Traffic} {place : List Bool} {arrivals : List Arrival}
    (h : Happens settings strategy t place s notes s')
    (ht : t.Passes fun _ job _ ↦ job.worker = worker ∧ (job.identify settings.keyspace).1 = k)
    (hagain : s.RunsAgain worker) (hall : t.arrivals place ⊆ arrivals) :
    Flagging k (OwnWindow settings arrivals) notes := by
  induction h with
  | none => exact .nil
  | wait _ ih =>
    exact .plain (by rintro ⟨_, _, _, _, _, ⟨⟩⟩) (by rintro ⟨_, _, _, ⟨⟩⟩) (ih ht hagain hall)
  | barred hquiet hbarred _ ih =>
    obtain ⟨⟨rfl, hkey⟩, -, hrest⟩ := ht
    obtain ⟨ha, hsub⟩ := List.cons_subset.mp hall
    obtain ⟨-, hsubrest⟩ := List.append_subset.mp hsub
    have hown := hbarred.flagging (Pass.key_ofJob.trans hkey) (Pass.runsAgain_ofJob hagain)
    have hflags : Flagging k (OwnWindow settings arrivals) _ := hown.imp <| by
      rintro _ before ttl ⟨rfl, hlike, hwindow⟩
      refine ⟨_, ha, rfl, ?_⟩
      rw [hlike.windowFor?, Site.windowFor?, hquiet.workers]
      exact hwindow
    have hagain' := (hquiet.like.trans hbarred.like).runsAgain hagain
    simpa using hflags.append (ih hrest hagain' hsubrest)
  | @through stage job given _ _ finish _ place _ before within after more _ _ s₂ s₃ s₄ _ hquiet
      henters hwithin hleaves _ _ ihinside ihrest =>
    obtain ⟨-, hinside, hrest⟩ := ht
    obtain ⟨-, hsub⟩ := List.cons_subset.mp hall
    obtain ⟨hsubinside, hsubrest⟩ := List.append_subset.mp hsub
    have hagain₂ := (hquiet.like.trans henters.like).runsAgain hagain
    have hagain₃ := hwithin.later.runsAgain hagain₂
    have hagain₄ := hleaves.like.runsAgain hagain₃
    have hhanded : (Note.handed ⟨stage, job.id, place⟩ given s₂).Plain k :=
      ⟨by rintro ⟨_, _, _, _, _, ⟨⟩⟩, by rintro ⟨_, _, _, ⟨⟩⟩⟩
    have hfinished : (Note.finished ⟨stage, job.id, place⟩ (finish given).1 s₃).Plain k :=
      ⟨by rintro ⟨_, _, _, _, _, ⟨⟩⟩, by rintro ⟨_, _, _, ⟨⟩⟩⟩
    have hended : ((Outcome.ended (finish given).1).note ⟨stage, job.id, place⟩ s₄).Plain k :=
      Outcome.plain (by simp)
    have hlast := (Flagging.of_forall hleaves.plain).append
      (.plain hended.1 hended.2 (ihrest hrest hagain₄ hsubrest))
    have hwhile := (ihinside hinside hagain₂ hsubinside).append
      (.plain hfinished.1 hfinished.2 hlast)
    simpa using (Flagging.of_forall henters.plain).append (.plain hhanded.1 hhanded.2 hwhile)

theorem Sound.exists_flag (h : Sound k s.clock s.store.entries) (hflag : s.flag? k = some e) :
    ∃ v, e.content = .text v := by
  obtain ⟨_ | _ | _, x⟩ := e
  · exact ⟨_, rfl⟩
  · exact False.elim (h.fit .flag _ hflag)
  · exact False.elim (h.fit .flag _ hflag)

theorem Sound.getText_flag (h : Sound k s.clock s.store.entries) :
    ∃ v, (getText s.clock k.flag s.store.entries).1 = .ok v ∧ v.isSome = (s.flag? k).isSome := by
  rw [getText_fst]
  cases hflag : s.flag? k with
  | none =>
    have hlive : s.store.entries.live? s.clock k.flag = none := hflag
    rw [hlive]
    exact ⟨none, rfl, rfl⟩
  | some e =>
    obtain ⟨v, hv⟩ := h.exists_flag hflag
    obtain ⟨_, x⟩ := e
    subst hv
    have hlive : s.store.entries.live? s.clock k.flag = some ⟨.text v, x⟩ := hflag
    rw [hlive]
    exact ⟨some v, rfl, rfl⟩

/-- The call that sets the flag leaves the one that it finds, or else a new one for its time. -/
theorem Move.flag?_of_setsFlag {ttl : Duration} {failure : Option StoreError} {before after : Site}
    (h : Move k M (.called caller (.setIfAbsent k.flag "1" ttl) failure before after)) :
    after.flag? k = some ((before.flag? k).getD ⟨.text "1", deadline before.clock ttl⟩) := by
  generalize hn : Note.called caller (.setIfAbsent k.flag "1" ttl) failure before after = n at h
  cases h with
  | mark hmark =>
    subst hn
    cases hmark
  | wait | release => cases hn
  | touch htouch =>
    cases htouch with
    | @intro c contact s hkey _ _ =>
      subst hkey
      obtain ⟨-, hcall, -, rfl, rfl⟩ := Note.called.inj hn
      cases contact with
      | setFlag ttl' =>
        obtain ⟨-, -, rfl⟩ := StoreCall.setIfAbsent.inj hcall
        exact (live?_setIfAbsent _ _ _ _ _).trans (if_pos rfl)
      | claim | advance | readLatest | readFlag | release => cases hcall

/-- A call that has set the flag is followed by a drop, in the span or right after it. -/
theorem Flagging.exists_drop_of_since {W : Caller → Site → Duration → Prop} {Q : Note → Prop}
    {first span late : List Note} (h : Flagging k W (first ++ span ++ late)) (hQ : ∀ n, Q n → n.SetsFlag k)
    (hsince : Since k Q span) : Since k Note.Drops span ∨ ∃ n ∈ late.head?, n.Drops := by
  obtain ⟨early, c, rest, rfl, hc, hreleases⟩ := hsince
  have hlog : first ++ (early ++ c :: rest) ++ late = (first ++ early) ++ c :: (rest ++ late) := by
    simp
  rw [hlog] at h
  obtain ⟨m, more, hmore, hm⟩ := h.exists_drop (hQ c hc)
  cases rest with
  | nil =>
    rw [List.nil_append] at hmore
    rw [hmore]
    exact .inr ⟨m, rfl, hm⟩
  | cons m' rest =>
    obtain ⟨rfl, -⟩ := List.cons.inj hmore
    exact .inl ⟨early ++ [c], m', rest, by simp, hm, (List.forall_mem_cons.mp hreleases).2⟩

/-- A drop, the call before it that sets the flag, and the chain from there on. -/
theorem Chain.exists_flag_of_drop {W : Caller → Site → Duration → Prop} {first rest : List Note}
    {J : JobId} {site : Site}
    (h : Chain (Move k M) s (first ++ .scheduled caller (.ok (.dropped J)) site :: rest) s')
    (hflagging : Flagging k W (first ++ .scheduled caller (.ok (.dropped J)) site :: rest)) :
    ∃ early ttl failure before after, first = early ++
        [.called caller (.setIfAbsent k.flag "1" ttl) failure before after] ∧
      W caller before ttl ∧
      site.flag? k = some ((before.flag? k).getD ⟨.text "1", deadline before.clock ttl⟩) ∧
      ∃ s₁, Chain (Move k M) s first s₁ ∧ s₁.Still site ∧ Chain (Move k M) site rest s' := by
  obtain ⟨early, ttl, failure, before, after, rfl, hW⟩ :=
    hflagging.exists_setsFlag ⟨caller, J, site, rfl⟩ rfl
  obtain ⟨s₁, hfirst, hlast⟩ := h.exists_between
  obtain ⟨s₂, -, hset⟩ := hfirst.exists_between
  cases hlast with
  | step hstill _ hrest =>
    cases hset with
    | step _ hmove hend =>
      cases hend with
      | rest hstill' =>
        have hsite := ((hstill'.trans hstill).flag? k).trans hmove.flag?_of_setsFlag
        exact ⟨early, ttl, failure, before, after, rfl, hW, hsite, s₁, hfirst, hstill, hrest⟩

theorem FlagStays.mono (h : FlagStays k log) (hsub : notes ⊆ log) : FlagStays k notes :=
  fun before after hn ↦ h before after (hsub hn)

/-- A flag that no waiting outlasts is there until the next release. -/
theorem Move.isSome_flag? (hn : Move k M n) (hrelease : ¬ n.Releases k) (hstays : FlagStays k [n])
    (hflag : (n.before.flag? k).isSome = true) : (n.after.flag? k).isSome = true := by
  cases hn with
  | mark hmark => rwa [Note.after_eq_before hmark]
  | wait => exact hstays _ _ (List.mem_singleton.mpr rfl) hflag
  | release hkey =>
    subst hkey
    exact absurd (Contact.releases_release _ _ _) hrelease
  | touch htouch =>
    have hmove : Move k M n := .touch htouch
    cases htouch with
    | @intro c contact s hkey hne _ =>
      subst hkey
      by_cases hset : ∃ ttl, contact = .setFlag ttl
      · obtain ⟨ttl, rfl⟩ := hset
        have hafter := Move.flag?_of_setsFlag hmove
        exact Option.isSome_of_eq_some hafter
      · have hlive := @Contact.live?_flag s.clock s.store.entries c contact
          (fun ttl heq ↦ hset ⟨ttl, heq⟩) hne
        exact (congrArg _ hlive).trans hflag

theorem Chain.isSome_flag? (h : Chain (Move k M) s notes s')
    (hreleases : ∀ n ∈ notes, ¬ n.Releases k) (hstays : FlagStays k notes)
    (hflag : (s.flag? k).isSome = true) : (s'.flag? k).isSome = true := by
  induction h with
  | rest hstill => rwa [hstill.flag?]
  | @step n _ _ notes hstill hn _ ih =>
    obtain ⟨hrelease, hreleases⟩ := List.forall_mem_cons.mp hreleases
    rw [← hstill.flag?] at hflag
    have hafter := hn.isSome_flag? hrelease (hstays.mono (by simp)) hflag
    exact ih hreleases (hstays.mono (List.subset_cons_self n notes)) hafter

namespace Traffic

def shopWith (w : Worker) : Site :=
  { shop "" with workers := Dictionary.empty.insert "w" w }

/-- A worker that holds the window until a job has run, and runs it again after a drop. -/
def patient : Worker := (Worker.newIdempotent.withStrategy "until_executed").runAgain

end Traffic

end UniqueJobs
