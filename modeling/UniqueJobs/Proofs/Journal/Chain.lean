import UniqueJobs.Proofs.Journal.Run

/-!
The journal as a chain: each note stands where the one before it has led, and says what has changed.
Main statements: `Happens.chain`, that a run leaves a chain of moves, and `Chain.sound`, that the
records stay sound along it.
-/

namespace UniqueJobs

open Entries

namespace Note

/-- Does the note mark a place in the run, with nothing changing? -/
def isMark : Note → Bool
  | called .. | waited .. => false
  | handed .. | finished .. | scheduled .. | performed .. => true

theorem after_eq_before {n : Note} (h : n.isMark = true) : n.after = n.before := by
  cases n with
  | called | waited => cases h
  | handed | finished | scheduled | performed => rfl

end Note

theorem Outcome.isMark_note (o : Outcome) (caller : Caller) (s : Site) :
    (o.note caller s).isMark = true := by
  rw [Outcome.note]
  cases caller.stage <;> rfl

theorem Outcome.before_note (o : Outcome) (caller : Caller) (s : Site) :
    (o.note caller s).before = s := by
  rw [Outcome.note]
  cases caller.stage <;> rfl

theorem Outcome.caller?_note (o : Outcome) (caller : Caller) (s : Site) :
    (o.note caller s).caller? = some caller := by
  rw [Outcome.note]
  cases caller.stage <;> rfl

abbrev Measures := (String → String → String → Except LsnError Int64) → Prop

/-- A note of a contact on one key that is no release. An offer has been measured from the baseline
that is live. -/
inductive Touch (k : JobKey) (M : Measures) (caller : Caller) : Note → Prop
  | intro {c : Claimant} {contact : Contact} {s : Site} (hkey : c.key = k)
      (hrelease : contact ≠ .release)
      (hoffer : ∀ config location offset, contact = .advance config location offset →
        ∃ measure, M measure ∧ measure config location
          ((text? s.clock (k.baseline config) s.store.entries).getD location) = .ok offset) :
      Touch k M caller (contact.note caller c s)

/-- What a note stands for in traffic on one key. -/
inductive Move (k : JobKey) (M : Measures) : Note → Prop
  | mark {n : Note} (h : n.isMark = true) : Move k M n
  | wait {s : Site} {d : Duration} : Move k M (.waited s (s.advance d))
  | touch {caller : Caller} {n : Note} (h : Touch k M caller n) : Move k M n
  | release {caller : Caller} {c : Claimant} {s : Site} (hkey : c.key = k) :
      Move k M (Contact.release.note caller c s)

theorem Move.sound {k : JobKey} {M : Measures} {n : Note} (hn : Move k M n)
    (h : Sound k n.before.clock n.before.store.entries) :
    Sound k n.after.clock n.after.store.entries := by
  cases hn with
  | mark hmark =>
    rw [Note.after_eq_before hmark]
    exact h
  | wait => exact Sound.wait h (Nat.le_add_right _ _)
  | touch htouch =>
    cases htouch with
    | @intro c contact s hkey _ _ =>
      subst hkey
      exact Sound.effect h contact
  | release hkey =>
    subst hkey
    exact Sound.effect h .release

/-- Notes of one kind, each standing where the one before it has led. -/
inductive Chain (Q : Note → Prop) : Site → List Note → Site → Prop
  | rest {s s' : Site} (h : s.Still s') : Chain Q s [] s'
  | step {n : Note} {s s' : Site} {notes : List Note} (h : s.Still n.before) (hn : Q n)
      (hrest : Chain Q n.after notes s') : Chain Q s (n :: notes) s'

namespace Chain

variable {Q R : Note → Prop} {s s' s'' : Site} {notes more : List Note} {n : Note}

theorem of_still (h : s.Still s') (h' : Chain Q s' notes s'') : Chain Q s notes s'' := by
  cases h' with
  | rest hs => exact .rest (h.trans hs)
  | step hs hn hrest => exact .step (h.trans hs) hn hrest

theorem append (h : Chain Q s notes s') (h' : Chain Q s' more s'') :
    Chain Q s (notes ++ more) s'' := by
  induction h with
  | rest hs => exact h'.of_still hs
  | step hs hn _ ih => exact .step hs hn (ih h')

theorem imp (h : Chain Q s notes s') (hQR : ∀ n, Q n → R n) : Chain R s notes s' := by
  induction h with
  | rest hs => exact .rest hs
  | step hs hn _ ih => exact .step hs (hQR _ hn) ih

theorem mark (hmark : n.isMark = true) (hn : Q n) : Chain Q n.before [n] n.before := by
  refine .step (.refl _) hn (.rest ?_)
  rw [Note.after_eq_before hmark]
  exact .refl _

theorem forall_mem (h : Chain Q s notes s') : ∀ n ∈ notes, Q n := by
  induction h with
  | rest => simp
  | step _ hn _ ih => exact List.forall_mem_cons.mpr ⟨hn, ih⟩

theorem exists_between (h : Chain Q s (notes ++ more) s'') :
    ∃ s', Chain Q s notes s' ∧ Chain Q s' more s'' := by
  induction notes generalizing s with
  | nil => exact ⟨s, .rest (.refl s), h⟩
  | cons n notes ih =>
    cases h with
    | step hs hn hrest =>
      obtain ⟨s', hfirst, hlast⟩ := ih hrest
      exact ⟨s', .step hs hn hfirst, hlast⟩

theorem sound {k : JobKey} {M : Measures} (h : Chain (Move k M) s notes s')
    (hs : Sound k s.clock s.store.entries) : Sound k s'.clock s'.store.entries := by
  induction h with
  | rest hstill =>
    rw [hstill.clock, hstill.store]
    exact hs
  | step hstill hn _ ih =>
    apply ih
    apply hn.sound
    rw [hstill.clock, hstill.store]
    exact hs

end Chain

def Contact.isOffer : Contact → Bool
  | .advance .. => true
  | _ => false

section

variable {k : JobKey} {M : Measures} {caller : Caller} {c : Claimant} {contacts : List Contact}
  {s s' : Site} {notes : List Note}

theorem Calls.chain (h : Calls caller c contacts s notes s') (hkey : c.key = k)
    (hcontacts : ∀ contact ∈ contacts, contact.isOffer = false ∧ contact ≠ .release) :
    Chain (Touch k M caller) s notes s' := by
  induction h with
  | rest hs => exact .rest hs.toStill
  | @call contact contacts s s₁ s' notes hs _ ih =>
    obtain ⟨⟨hoffer, hrelease⟩, hrest⟩ := List.forall_mem_cons.mp hcontacts
    refine .step hs.toStill (.intro hkey hrelease ?_) (ih hrest)
    rintro config location offset rfl
    cases hoffer

theorem Contact.live?_baseline {now : Instant} {es : Entries} (c : Claimant)
    (config location : String) (offset : Int64) (other : String) :
    live? now (c.key.baseline other) ((Contact.advance config location offset).effect c now es) =
      es.live? now (c.key.baseline other) := by
  have hlist : Record.latest config ≠ .baseline other := by simp
  have hset : Record.configs ≠ .baseline other := by simp
  have hlist' : c.key.latest config ≠ c.key.baseline other := Record.name_ne c.key hlist
  have hset' : c.key.configs ≠ c.key.baseline other := Record.name_ne c.key hset
  have hne := Record.latest_ne_configs c.key config
  rcases @live?_advance now _ _ hne location (toString offset.toInt)
    (toString c.settings.latestTtl.millis) config es with hsame | ⟨o, millis, -, hlive⟩
  · exact hsame _
  · exact (hlive _).trans (by rw [if_neg hlist', if_neg hset'])

/-- Offers measured from the baselines that were read stay measured from what is live. -/
theorem Calls.chain_offers {baselines : Dictionary String}
    {measure : String → String → String → Except LsnError Int64} (hM : M measure)
    (h : Calls caller c contacts s notes s') (hkey : c.key = k)
    (hoffers : ∀ contact ∈ contacts, contact.Offers { c with baselines } measure)
    (hbaselines : ∀ config, c.locations.contains config = true →
      baselines.get? config = text? s.clock (k.baseline config) s.store.entries) :
    Chain (Touch k M caller) s notes s' := by
  induction h with
  | rest hs => exact .rest hs.toStill
  | @call contact contacts s s₁ s' notes hs _ ih =>
    obtain ⟨hoffer, hrest⟩ := List.forall_mem_cons.mp hoffers
    obtain ⟨config, location, offset, rfl, hcarried, hmeasured⟩ := hoffer
    have hclock := hs.clock
    have hentries := congrArg LocalStore.entries hs.store
    refine .step hs.toStill (.intro hkey (by simp) ?_) (ih hrest ?_)
    · rintro config' location' offset' heq
      cases heq
      have hcontains : c.locations.contains config = true :=
        Option.isSome_iff_exists.mpr ⟨location, hcarried⟩
      rw [hbaselines config hcontains] at hmeasured
      rw [hclock, hentries]
      exact ⟨measure, hM, hmeasured⟩
    · -- The offer has changed no baseline, so what was read stays what is live.
      intro other hother
      rw [hbaselines other hother, ← hclock, ← hentries, ← hkey]
      exact (text?_congr (Contact.live?_baseline c config location offset other)).symm

end

namespace Pass

variable {k : JobKey} {M : Measures} {p : Pass} {s s' : Site} {notes : List Note} {job : Job}

theorem Reads.chain (h : p.Reads s notes job s') (hkey : p.claimant.key = k) :
    Chain (Touch k M p.caller) s notes s' := by
  cases h with
  | schedule _ h => exact .rest h.toStill
  | perform _ h =>
    cases h with
    | nothing _ h => exact .rest h.toStill
    | failed _ h => exact h.chain hkey (by simp [Contact.isOffer])
    | answered _ _ h => exact h.chain hkey (by simp [Contact.isOffer])

theorem Claims.chain {winner : JobId} (h : p.Claims winner s notes s')
    (hkey : p.claimant.key = k) (hM : M p.measure) : Chain (Touch k M p.caller) s notes s' := by
  cases h with
  | @intro window baselines contacts first more s₁ _ hclaim _ hbaselines hcalls hoffers =>
    have hclock := hclaim.like.clock
    refine (hclaim.chain hkey (by simp [Contact.isOffer])).append
      (hcalls.chain_offers hM hkey hoffers ?_)
    intro config hcontains
    rw [hbaselines, if_pos hcontains, ← hclock, hkey]

theorem Enters.chain {held : Bool} (h : p.Enters s held notes job s')
    (hkey : p.claimant.key = k) (hM : M p.measure) : Chain (Touch k M p.caller) s notes s' := by
  cases h with
  | bypass _ _ _ h => exact .rest h.toStill
  | unasked _ _ hread => exact hread.chain hkey
  | unanswered _ _ hread hclaim =>
    exact (hread.chain hkey).append (hclaim.chain hkey (by simp [Contact.isOffer]))
  | own _ hread hclaims => exact (hread.chain hkey).append (hclaims.chain hkey hM)

theorem Barred.chain {o : Outcome} (h : p.Barred s o notes s') (hkey : p.claimant.key = k)
    (hM : M p.measure) : Chain (Touch k M p.caller) s notes s' := by
  cases h with
  | refused _ hread hclaim =>
    exact (hread.chain hkey).append (hclaim.chain hkey (by simp [Contact.isOffer]))
  | foreign _ hread hclaims _ hflag =>
    refine ((hread.chain hkey).append (hclaims.chain hkey hM)).append (hflag.chain hkey ?_)
    intro contact hcontact
    rw [eq_setFlag_of_mem hcontact]
    exact ⟨rfl, by simp⟩

end Pass

namespace Traffic

theorem Passes.imp {P Q : Stage → Job → (String → String → String → Except LsnError Int64) → Prop}
    {t : Traffic} (h : t.Passes P) (hPQ : ∀ stage job measure, P stage job measure →
      Q stage job measure) : t.Passes Q := by
  induction t with
  | none => exact trivial
  | pass _ _ _ _ _ _ ihinside ihrest =>
    obtain ⟨hP, hinside, hrest⟩ := h
    exact ⟨hPQ _ _ _ hP, ihinside hinside, ihrest hrest⟩
  | wait _ _ ih => exact ih h
  | switch => exact h.elim
  | fail => exact h.elim

def OnKey (settings : Settings) (k : JobKey) (M : Measures) (t : Traffic) : Prop :=
  t.Passes fun _ job measure ↦ (job.identify settings.keyspace).1 = k ∧ M measure

end Traffic

def Move.By (k : JobKey) (M : Measures) (caller : Caller) (n : Note) : Prop :=
  Move k M n ∧ n.caller? = some caller

theorem Touch.move_by {k : JobKey} {M : Measures} {caller : Caller} {n : Note}
    (h : Touch k M caller n) : Move.By k M caller n := by
  refine ⟨.touch h, ?_⟩
  cases h
  rfl

/-- A move in the traffic that goes on below a place. -/
def Move.Below (k : JobKey) (M : Measures) (place : List Bool) (n : Note) : Prop :=
  Move k M n ∧ ∀ caller, n.caller? = some caller → place <:+ caller.place

theorem Move.By.below {k : JobKey} {M : Measures} {caller : Caller} {n : Note}
    (h : Move.By k M caller n) : Move.Below k M caller.place n := by
  refine ⟨h.1, ?_⟩
  intro other hother
  obtain rfl := Option.some.inj (h.2.symm.trans hother)
  exact List.suffix_refl _

theorem Move.Below.mono {k : JobKey} {M : Measures} {place : List Bool} {n : Note} {b : Bool}
    (h : Move.Below k M (b :: place) n) : Move.Below k M place n :=
  ⟨h.1, fun caller hcaller ↦ (List.suffix_cons b place).trans (h.2 caller hcaller)⟩

theorem Chain.of_mark {k : JobKey} {M : Measures} {n : Note} {caller : Caller}
    (hmark : n.isMark = true) (hcaller : n.caller? = some caller) :
    Chain (Move.By k M caller) n.before [n] n.before := .mark hmark ⟨.mark hmark, hcaller⟩

namespace Pass

variable {k : JobKey} {M : Measures} {p : Pass} {s s' : Site} {notes : List Note}

theorem chain_note (o : Outcome) (caller : Caller) (s : Site) :
    Chain (Move.By k M caller) s [o.note caller s] s := by
  have h := Chain.of_mark (k := k) (M := M) (o.isMark_note caller s) (o.caller?_note caller s)
  rwa [Outcome.before_note] at h

theorem Reads.sound {job : Job} (h : p.Reads s notes job s') (hkey : p.claimant.key = k)
    (hs : Sound k s.clock s.store.entries) : Sound k s'.clock s'.store.entries :=
  ((h.chain (M := fun _ ↦ True) hkey).imp fun _ ↦ Move.touch).sound hs

theorem Barred.sound {o : Outcome} (h : p.Barred s o notes s') (hkey : p.claimant.key = k)
    (hs : Sound k s.clock s.store.entries) : Sound k s'.clock s'.store.entries :=
  ((h.chain (M := fun _ ↦ True) hkey trivial).imp fun _ ↦ Move.touch).sound hs

theorem Enters.sound {held : Bool} {given : Job} (h : p.Enters s held notes given s')
    (hkey : p.claimant.key = k) (hs : Sound k s.clock s.store.entries) :
    Sound k s'.clock s'.store.entries :=
  ((h.chain (M := fun _ ↦ True) hkey trivial).imp fun _ ↦ Move.touch).sound hs

theorem Barred.chain_all {o : Outcome} (h : p.Barred s o notes s') (hkey : p.claimant.key = k)
    (hM : M p.measure) : Chain (Move.By k M p.caller) s (notes ++ [o.note p.caller s']) s' :=
  ((h.chain hkey hM).imp fun _ ↦ Touch.move_by).append (chain_note o p.caller s')

theorem Enters.chain_all {held : Bool} {given : Job} (h : p.Enters s held notes given s')
    (hkey : p.claimant.key = k) (hM : M p.measure) :
    Chain (Move.By k M p.caller) s (notes ++ [.handed p.caller given s']) s' :=
  ((h.chain hkey hM).imp fun _ ↦ Touch.move_by).append
    (Chain.of_mark (n := .handed p.caller given s') rfl rfl)

theorem chain_release {caller : Caller} {c : Claimant}
    (h : Calls caller c [.release] s notes s') (hkey : c.key = k) :
    Chain (Move.By k M caller) s notes s' := by
  cases h with
  | call hs hrest =>
    cases hrest with
    | rest hs' => exact .step hs.toStill ⟨.release hkey, rfl⟩ (.rest hs'.toStill)

theorem Leaves.chain {held : Bool} {result : Except String Unit}
    (h : p.Leaves s held result notes s') (hkey : p.claimant.key = k) :
    Chain (Move.By k M p.caller) s notes s' := by
  cases h with
  | schedule _ h => exact .rest h.toStill
  | kept _ _ _ h => exact .rest h.toStill
  | released _ _ h => exact chain_release h hkey
  | cleared _ _ h hend =>
    obtain ⟨s₁, first, last, rfl, hfirst, hlast⟩ := h.exists_between
    have hreads := hfirst.chain (k := k) (M := M) hkey fun contact hcontact ↦ by
      rw [Claimant.eq_readFlag_of_mem hcontact]
      exact ⟨rfl, by simp⟩
    have hall := (hreads.imp fun _ ↦ Touch.move_by).append
      ((chain_release hlast hkey).append (.rest hend))
    rwa [List.append_nil] at hall

theorem Leaves.sound {held : Bool} {result : Except String Unit}
    (h : p.Leaves s held result notes s') (hkey : p.claimant.key = k)
    (hs : Sound k s.clock s.store.entries) : Sound k s'.clock s'.store.entries :=
  ((h.chain (M := fun _ ↦ True) hkey).imp fun _ hn ↦ hn.1).sound hs

theorem Leaves.chain_all {held : Bool} {result : Except String Unit}
    (h : p.Leaves s held result notes s') (hkey : p.claimant.key = k) :
    Chain (Move.By k M p.caller) s
      (.finished p.caller result s :: notes ++ [(Outcome.ended result).note p.caller s']) s' := by
  have hfinished : Chain (Move.By k M p.caller) s [.finished p.caller result s] s :=
    Chain.of_mark (n := .finished p.caller result s) rfl rfl
  exact (hfinished.append (h.chain hkey)).append (chain_note _ _ _)

end Pass

/-- What happens is a chain of moves, each made below the place of the traffic. -/
theorem Happens.chain {settings : Settings} {strategy : Strategy} {t : Traffic}
    {place : List Bool} {s s' : Site} {notes : List Note} {k : JobKey} {M : Measures}
    (h : Happens settings strategy t place s notes s') (ht : t.OnKey settings k M) :
    Chain (Move.Below k M place) s notes s' := by
  induction h with
  | none => exact .rest (.refl _)
  | wait _ ih => exact .step (.refl _) ⟨.wait, by rintro _ ⟨⟩⟩ (ih ht)
  | @barred stage job _ _ _ _ place o own _ _ _ s₂ _ hquiet hbarred _ ih =>
    obtain ⟨⟨hkey, hM⟩, -, hrest⟩ := ht
    have hown : Chain (Move.By k M ⟨stage, job.id, place⟩) _ _ s₂ :=
      hbarred.chain_all (Pass.key_ofJob.trans hkey) hM
    have hall := ((hown.imp fun _ ↦ Move.By.below).append
      ((ih hrest).imp fun _ ↦ Move.Below.mono)).of_still hquiet.toStill
    simpa using hall
  | @through stage job given _ _ _ _ place _ _ _ _ _ _ _ s₂ s₃ s₄ _ hquiet henters _ hleaves _ _
      ihinside ihrest =>
    obtain ⟨⟨hkey, hM⟩, hinside, hrest⟩ := ht
    have hfirst : Chain (Move.By k M ⟨stage, job.id, place⟩) _ _ s₂ :=
      henters.chain_all (Pass.key_ofJob.trans hkey) hM
    have hlast : Chain (Move.By k M ⟨stage, job.id, place⟩) s₃ _ s₄ :=
      hleaves.chain_all (Pass.key_ofJob.trans hkey)
    have hall := ((((hfirst.imp fun _ ↦ Move.By.below).append
      ((ihinside hinside).imp fun _ ↦ Move.Below.mono)).append
      (hlast.imp fun _ ↦ Move.By.below)).append
      ((ihrest hrest).imp fun _ ↦ Move.Below.mono)).of_still hquiet.toStill
    simpa using hall

theorem Happens.sound {settings : Settings} {strategy : Strategy} {t : Traffic}
    {place : List Bool} {s s' : Site} {notes : List Note} {k : JobKey}
    (h : Happens settings strategy t place s notes s')
    (ht : t.Passes fun _ job _ ↦ (job.identify settings.keyspace).1 = k)
    (hs : Sound k s.clock s.store.entries) : Sound k s'.clock s'.store.entries := by
  have hchain := h.chain (M := fun _ ↦ True) (ht.imp fun _ _ _ hkey ↦ ⟨hkey, trivial⟩)
  exact (hchain.imp fun _ hn ↦ hn.1).sound hs

end UniqueJobs
