import UniqueJobs.Proofs.Journal.Place
import UniqueJobs.Proofs.Journal.Standing
import UniqueJobs.Proofs.Traffic.Ownership

/-!
What an instance is told of the furthest positions when it is performed: what the lists hold when
it reads them. Main statement: `Traffic.told_no_less`; the runs of `Traffic.not_neverLess` show that
the list has to stand from its own offer on, with one baseline.
-/

namespace UniqueJobs

open Entries

theorem Claimant.item_not_mem_claimRequests (c : Claimant) (window : Duration) (name : String)
    (i : Nat) : .item name i ∉ c.claimRequests window := by
  intro hr
  simp only [claimRequests, claimWrites_eq, claimReads_eq, List.mem_append, List.mem_map] at hr
  rcases hr with (⟨p, -, heq⟩ | hr) | ⟨name, -, heq⟩
  · cases heq
  · split at hr
    · cases hr
    · cases List.mem_singleton.mp hr
  · cases heq

theorem Dictionary.get?_of_isEmpty {α : Type} {d : Dictionary α} (h : d.isEmpty = true)
    (name : String) : d.get? name = none := by
  rw [get?, List.isEmpty_iff.mp h]
  rfl

/-- Is an instance told of the furthest positions as they stand at a site? -/
def Told (k : JobKey) (s : Site) (given : Job) : Prop :=
  ∀ config location, given.locations.contains config = true →
    furthest? s.clock (k.latest config) s.store.entries = some location →
      given.latest.get? config = some location

section

variable {p : Pass} {requests : List Request} {s s' before after : Site}
  {notes : List Note} {job given : Job} {name : String} {i : Nat}

theorem Attaches.told {caller other : Caller} {c : Claimant}
    (h : Attaches caller c job s notes given s') (hlocations : job.locations = c.locations)
    (hn : .called other (.batch requests) none before after ∈ notes) : Told c.key before given := by
  cases h with
  | nothing => cases hn
  | failed hfailed h =>
    obtain ⟨s₁, hquiet, heq⟩ := h.eq_of_mem hn
    have hfailure := (Note.called.inj heq).2.2.1
    rw [hquiet.clock, hquiet.store] at hfailure
    exact absurd hfailure.symm hfailed
  | answered d hget h =>
    obtain ⟨s₁, hquiet, heq⟩ := h.eq_of_mem hn
    obtain rfl : before = s₁ := (Note.called.inj heq).2.2.2.1
    intro config location hcontains hfurthest
    have hcarried : c.locations.contains config = true := by
      rw [← hlocations]
      split at hcontains <;> exact hcontains
    rw [hquiet.clock, hquiet.store] at hfurthest
    have hd : d.get? config = some location := by rw [hget, if_pos hcarried, hfurthest]
    rw [if_neg]
    · exact hd
    · intro hempty
      cases hd.symm.trans (Dictionary.get?_of_isEmpty hempty config)

namespace Pass

theorem Reads.told (h : p.Reads s notes given s')
    (hlocations : p.job.locations = p.claimant.locations)
    (hn : .called p.caller (.batch requests) none before after ∈ notes) :
    Told p.claimant.key before given := by
  cases h with
  | schedule => cases hn
  | perform _ h => exact h.told hlocations hn

theorem not_mem_claim {window : Duration}
    (h : Calls p.caller p.claimant [.claim window] s notes s') (hitem : .item name i ∈ requests)
    (failure : Option StoreError) :
    .called p.caller (.batch requests) failure before after ∉ notes := by
  intro hn
  obtain ⟨s₁, -, heq⟩ := h.eq_of_mem hn
  obtain rfl := StoreCall.batch.inj (Note.called.inj heq).2.1
  exact p.claimant.item_not_mem_claimRequests window name i hitem

/-- The one batch that reads items is the one that the job is told of. -/
theorem Enters.told {held : Bool} (h : p.Enters s held notes given s')
    (hlocations : p.job.locations = p.claimant.locations) (hitem : .item name i ∈ requests)
    (hn : .called p.caller (.batch requests) none before after ∈ notes) :
    Told p.claimant.key before given := by
  cases h with
  | bypass => cases hn
  | unasked _ _ hread => exact hread.told hlocations hn
  | unanswered _ _ hread hclaim =>
    rcases List.mem_append.mp hn with hn | hn
    · exact hread.told hlocations hn
    · exact absurd hn (not_mem_claim hclaim hitem _)
  | own _ hread hclaims =>
    rcases List.mem_append.mp hn with hn | hn
    · exact hread.told hlocations hn
    cases hclaims with
    | intro hclaim _ _ hcalls hoffers =>
      rcases List.mem_append.mp hn with hn | hn
      · exact absurd hn (not_mem_claim hclaim hitem _)
      · obtain ⟨contact, hcontact, s₁, heq⟩ := hcalls.exists_contact _ hn
        obtain ⟨config, location, offset, rfl, -⟩ := hoffers contact hcontact
        cases heq

end Pass

theorem Located.told {settings : Settings} {strategy : Strategy} {k : JobKey} {M : Measures}
    {P : Stage → Job → (String → String → String → Except LsnError Int64) → Prop} {caller : Caller}
    {log : List Note} {site : Site} (h : Located settings strategy k M P caller s log)
    (hP : ∀ stage job measure, P stage job measure →
      (job.identify settings.keyspace).1 = k ∧ M measure)
    (hhanded : .handed caller given site ∈ log) (hitem : .item name i ∈ requests)
    (hn : .called caller (.batch requests) none before after ∈ log) : Told k before given := by
  cases h with
  | @intro job measure inside finish o first own last s₁ s₂ hpass hid hinside hfirst hgoes hbefore
      hlast =>
    obtain ⟨hkey, hM⟩ := hP _ _ _ hpass
    -- Neither note is the outcome's.
    have hown {n : Note} (hn : n ∈ first ++ (own ++ o.note caller s₂ :: last))
        (hcaller : n.caller? = some caller) (hne : n ≠ o.note caller s₂) : n ∈ own := by
      rcases Caller.mem_own hbefore hlast hn hcaller with hn | hn
      · exact hn
      · exact absurd hn hne
    have hhanded' := hown hhanded rfl (by rw [Outcome.note]; cases caller.stage <;> simp)
    have hn' := hown hn rfl (by rw [Outcome.note]; cases caller.stage <;> simp)
    cases hgoes with
    | barred hbarred =>
      have htouches := hbarred.chain (Pass.key_ofJob.trans hkey) hM
      cases (htouches.forall_mem _ hhanded').isOfContinuation
    | @through held result given' job' early within late s₃ s₄ _ henters hnext hleaves =>
      obtain ⟨-, within, hwithin, rfl⟩ := hnext
      have htouches := henters.chain (Pass.key_ofJob.trans hkey) hM
      have hplaces := hwithin.places (hinside.imp fun _ _ _ h ↦ (hP _ _ _ h).1)
      have hgiven : given = given' := by
        rcases Caller.mem_of_places hplaces hhanded' rfl with hmem | heq | heq | hmem
        · cases (htouches.forall_mem _ hmem).isOfContinuation
        · exact (Note.handed.inj heq).2.1
        · cases heq
        · cases hleaves.isOfContinuation _ hmem
      obtain ⟨-, -, -, -, hlocations, -, -, hlocations'⟩ :=
        Claimant.ofJob_facts settings (s₁.workers.get? job.worker) job
      have hearly : .called caller (.batch requests) none before after ∈ early := by
        rcases Caller.mem_of_places hplaces hn' rfl with hmem | heq | heq | hmem
        · exact hmem
        · cases heq
        · cases heq
        · obtain ⟨contact, s₅, heq, hcontact⟩ := hleaves.exists_contact _ hmem
          rcases hcontact with rfl | rfl <;> cases heq
      rw [hgiven, ← hkey, ← Pass.key_ofJob]
      exact henters.told (hlocations'.trans hlocations.symm) hitem hearly

end

namespace Traffic

/-- Are all instances of one job, with positions measured as those of the log are? -/
def Measured (settings : Settings) (worker : String) (k : JobKey) (t : Traffic) : Prop :=
  t.Passes fun _ job measure ↦ job.worker = worker ∧ (job.identify settings.keyspace).1 = k ∧
    Measures.lsn measure

/-- An instance that reads the furthest positions while a list stands that it has offered its own
location to is told of one that is no less. -/
theorem told_no_less {settings : Settings} {worker : String} {k : JobKey} (t : Traffic) {s : Site}
    (ht : t.Measured settings worker k) (hs : s.Calm)
    (hlocks : (s.strategyFor worker).locks = true) :
    (¬ Overdue (s.wall + t.duration) → ∃ log s', t.journal? settings s = some (log, s')) ∧
      ∀ log s', t.journal? settings s = some (log, s') →
        ∀ early made span caller requests before after late config b own,
          log = early ++ (made :: span ++
            .called caller (.batch requests) Option.none before after :: late) →
          .item (k.latest config) 0 ∈ requests → Standing k config b made span →
          (∃ n ∈ made :: span, ∃ place,
            n.Updates k config ⟨.schedule, caller.id, place⟩ own Option.none) →
          ∀ job site, .handed caller job site ∈ log → job.locations.get? config = some own →
            ∃ v p q, job.latest.get? config = some v ∧ Lsn.parse v = .ok p ∧
              Lsn.parse own = .ok q ∧ q ≤ p := by
  obtain ⟨hends, hhappens⟩ := t.happens settings (ht.imp fun _ _ _ h ↦ h.1) hs hlocks
  refine ⟨hends, ?_⟩
  intro log s' hrun early made span caller requests before after late config b own hlog hitem
    hstanding hoffered job site hhanded hown
  have hlogged := hhappens log s' hrun
  have hread : .called caller (.batch requests) Option.none before after ∈ log := by simp [hlog]
  have htold := (hlogged.locate (M := .lsn) ht (fun _ _ _ h ↦ h.2) hhanded rfl).told
    (fun _ _ _ h ↦ h.2) hhanded hitem hread
  have hchain := (hlogged.chain (ht.imp fun _ _ _ h ↦ h.2)).imp fun _ hn ↦ hn.1
  rw [hlog] at hchain
  obtain ⟨s₁, -, hrest⟩ := hchain.exists_between
  obtain ⟨s₂, hspan, hlate⟩ := hrest.exists_between
  obtain ⟨n, hn, place, hupdates⟩ := hoffered
  obtain ⟨furthest, offset, x, hfound, p, q, hp, hq, hle⟩ :=
    hspan.exists_furthest hstanding hn hupdates
  refine ⟨furthest, p, q, htold config furthest ?_ ?_, hp, hq, hle⟩
  · rw [Dictionary.contains, hown]
    rfl
  · cases hlate with
    | step hstill =>
      change s₂.Still before at hstill
      rw [hstill.clock, hstill.store]
      exact furthest?_of_position hfound

end Traffic

inductive Excerpt
  | offered (caller : Caller) (location : String)
  | read (caller : Caller)
  | told (caller : Caller) (own furthest : Option String)
  | nothing
  deriving DecidableEq

namespace Note

variable {k : JobKey} {config location : String} {caller : Caller} {n : Note}

def excerpt (k : JobKey) (config : String) : Note → Excerpt
  | called caller (.run .advance keys [location, _, _, other]) none _ _ =>
    if keys = [k.latest config, k.configs] ∧ other = config then .offered caller location
    else .nothing
  | called caller (.batch requests) none _ _ =>
    if .item (k.latest config) 0 ∈ requests then .read caller else .nothing
  | handed caller job _ => .told caller (job.locations.get? config) (job.latest.get? config)
  | _ => .nothing

theorem updates_of_excerpt (h : n.excerpt k config = .offered caller location) :
    n.Updates k config caller location none := by
  unfold excerpt at h
  split at h
  · split at h
    · rename_i hoffer
      obtain ⟨rfl, rfl⟩ := hoffer
      cases h
      exact ⟨_, _, _, _, rfl⟩
    · cases h
  · split at h <;> cases h
  · cases h
  · cases h

theorem eq_read (h : n.excerpt k config = .read caller) :
    ∃ requests before after, n = .called caller (.batch requests) none before after ∧
      .item (k.latest config) 0 ∈ requests := by
  unfold excerpt at h
  split at h
  · split at h <;> cases h
  · split at h
    · rename_i hitem
      cases h
      exact ⟨_, _, _, rfl, hitem⟩
    · cases h
  · cases h
  · cases h

theorem eq_handed {own furthest : Option String}
    (h : n.excerpt k config = .told caller own furthest) :
    ∃ job s, n = .handed caller job s ∧ job.locations.get? config = own ∧
      job.latest.get? config = furthest := by
  unfold excerpt at h
  split at h
  · split at h <;> cases h
  · split at h <;> cases h
  · cases h
    exact ⟨_, _, rfl, rfl, rfl⟩
  · cases h

end Note

/-- What a note says of the positions of a config, whether there is a list of it before and after,
and the baseline that stands then. -/
structure Account where
  excerpt : Excerpt
  before : Bool
  after : Bool
  baseline : Option String
  deriving DecidableEq

def Note.account (k : JobKey) (config : String) (n : Note) : Account where
  excerpt := n.excerpt k config
  before := (n.before.store.entries.live? n.before.clock (k.latest config)).isSome
  after := (n.after.store.entries.live? n.after.clock (k.latest config)).isSome
  baseline := text? n.before.clock (k.baseline config) n.before.store.entries

theorem Standing.of_accounts {k : JobKey} {config b : String} {made : Note} {span : List Note}
    {accounts : List Account} (haccounts : (made :: span).map (Note.account k config) = accounts)
    (hmade : (made.account k config).before = false)
    (h : ∀ e ∈ accounts, e.after = true ∧ e.baseline = some b) : Standing k config b made span := by
  have hall : ∀ n ∈ made :: span, (n.account k config).after = true ∧
      (n.account k config).baseline = some b := by
    intro n hn
    apply h
    rw [← haccounts]
    exact List.mem_map_of_mem hn
  refine ⟨⟨?_, ?_⟩, ?_⟩
  · intro n hn
    exact Option.isSome_iff_ne_none.mp (hall n hn).1
  · intro n hn _ _ _ _
    exact (hall n hn).2
  · exact Option.isNone_iff_eq_none.mp (Option.isSome_eq_false_iff.mp hmade)

namespace Traffic

def pieceAt (id location : String) : Job := (pieceOfWork id).withLocation "main" location

/-- While one instance waits to be performed, one is dropped that has seen more of the log. -/
def raising : Traffic :=
  through .schedule (pieceAt "a" "0/100") none <|
    through .schedule (pieceAt "b" "0/150") none <|
      through .perform (pieceAt "a" "0/100") none none

def raisingAccounts : List Account :=
  [⟨.offered ⟨.schedule, ⟨"a"⟩, []⟩ "0/100", false, true, some "0/100"⟩,
    ⟨.told ⟨.schedule, ⟨"a"⟩, []⟩ (some "0/100") Option.none, true, true, some "0/100"⟩,
    ⟨.nothing, true, true, some "0/100"⟩, ⟨.nothing, true, true, some "0/100"⟩,
    ⟨.nothing, true, true, some "0/100"⟩,
    ⟨.offered ⟨.schedule, ⟨"b"⟩, [false]⟩ "0/150", true, true, some "0/100"⟩,
    ⟨.nothing, true, true, some "0/100"⟩]

theorem measured_raising : raising.Measured .default "w" ⟨"k"⟩ :=
  ⟨⟨rfl, rfl, rfl⟩, trivial, ⟨rfl, rfl, rfl⟩, trivial, ⟨rfl, rfl, rfl⟩, trivial, trivial⟩

theorem told_no_less_raising : ∃ log s' job site,
    raising.journal? .default (shop "until_executed") = some (log, s') ∧
      .handed ⟨.perform, ⟨"a"⟩, [false, false]⟩ job site ∈ log ∧
      ∃ v p q, job.latest.get? "main" = some v ∧ Lsn.parse v = .ok p ∧
        Lsn.parse "0/100" = .ok q ∧ q ≤ p := by
  have hrun : (raising.journal? .default (shop "until_executed")).map
      (fun r ↦ r.1.map (Note.account ⟨"k"⟩ "main")) =
        some (([⟨.nothing, false, false, Option.none⟩] ++ raisingAccounts) ++
          ⟨.read ⟨.perform, ⟨"a"⟩, [false, false]⟩, true, true, some "0/100"⟩ ::
          [⟨.told ⟨.perform, ⟨"a"⟩, [false, false]⟩ (some "0/100") (some "0/150"), true, true,
              some "0/100"⟩,
            ⟨.nothing, true, true, some "0/100"⟩, ⟨.nothing, true, false, some "0/100"⟩,
            ⟨.nothing, false, false, Option.none⟩]) := by
    decide +kernel
  obtain ⟨first, n, late, s', hjournal, hfirst, hn, hlate⟩ := exists_note_of_outline hrun
  obtain ⟨early, span, rfl, -, hspan⟩ := List.map_eq_append_iff.mp hfirst
  obtain ⟨made, span, rfl, hmade, -⟩ := List.map_eq_cons_iff.mp hspan
  obtain ⟨told, late, rfl, htold, -⟩ := List.map_eq_cons_iff.mp hlate
  obtain ⟨requests, before, after, rfl, hitem⟩ := Note.eq_read (congrArg Account.excerpt hn)
  obtain ⟨job, site, rfl, hown, -⟩ := Note.eq_handed (congrArg Account.excerpt htold)
  have hstanding : Standing ⟨"k"⟩ "main" "0/100" made span :=
    .of_accounts hspan (congrArg Account.before hmade) (by decide)
  have hoffered := Note.updates_of_excerpt (congrArg Account.excerpt hmade)
  refine ⟨_, s', job, site, hjournal, by simp, ?_⟩
  exact (told_no_less raising measured_raising ⟨rfl, rfl⟩ rfl).2 _ s' hjournal early made span
    ⟨.perform, ⟨"a"⟩, [false, false]⟩ requests before after _ "main" "0/100" "0/100"
    (List.append_assoc ..) hitem hstanding ⟨made, List.mem_cons_self, [], hoffered⟩ job site
    (by simp) hown

/-- Is no instance that has offered its own location told of one before it? -/
def NeverLess (k : JobKey) (log : List Note) : Prop :=
  ∀ first caller job site rest, log = first ++ .handed caller job site :: rest →
    caller.stage = .perform → ∀ config own v, job.locations.get? config = some own →
      job.latest.get? config = some v →
      (∃ n ∈ first, ∃ place, n.Updates k config ⟨.schedule, caller.id, place⟩ own Option.none) →
        ∃ p q, Lsn.parse v = .ok p ∧ Lsn.parse own = .ok q ∧ q ≤ p

theorem exists_not_neverLess {k : JobKey} {config own v : String} {caller : Caller}
    {place : List Bool} {settings : Settings} {t : Traffic} {s : Site} {first last : List Excerpt}
    {p q : Nat} (hrun : (t.journal? settings s).map (fun r ↦ r.1.map (Note.excerpt k config)) =
      some (first ++ .told caller (some own) (some v) :: last)) (hstage : caller.stage = .perform)
    (hoffered : .offered ⟨.schedule, caller.id, place⟩ own ∈ first)
    (hv : Lsn.parse v = .ok p) (hown : Lsn.parse own = .ok q) (hlt : p < q) :
    ∃ log s', t.journal? settings s = some (log, s') ∧ ¬ NeverLess k log := by
  obtain ⟨early, n, rest, s', hjournal, rfl, hn, -⟩ := exists_note_of_outline hrun
  refine ⟨_, s', hjournal, ?_⟩
  intro h
  obtain ⟨m, hm, hoffer⟩ := List.mem_map.mp hoffered
  obtain ⟨job, site, rfl, hlocation, hlatest⟩ := Note.eq_handed hn
  obtain ⟨p', q', hp, hq, hle⟩ := h early caller job site rest rfl hstage config own v hlocation
    hlatest ⟨m, hm, place, Note.updates_of_excerpt hoffer⟩
  cases hv.symm.trans hp
  cases hown.symm.trans hq
  omega

/-- The list lapses before another instance is dropped that has seen less of the log. -/
def lapsing : Traffic :=
  through .schedule (pieceAt "a" "0/100") none <| wait (.ofSecs 61) <|
    through .schedule (pieceAt "b" "0/50") none <|
      through .perform (pieceAt "a" "0/100") none none

/-- Where windows are held for a shorter time than lists are. -/
def briefShop : Site :=
  { shop "until_executed" with
    workers := Dictionary.empty.insert "w"
      ((Worker.newIdempotent.withStrategy "until_executed").withWindow (.ofSecs 10)) }

/-- The window lapses but the list does not, and the next window has another baseline. -/
def rebasing : Traffic :=
  through .schedule (pieceAt "a" "0/100") none <| wait (.ofSecs 11) <|
    through .schedule (pieceAt "b" "0/50") none <| through .schedule (pieceAt "c" "0/60") none <|
      through .perform (pieceAt "a" "0/100") none none

/-- An instance may be told of a location before its own if the list has lapsed since it was
offered, and also if the baseline has changed. -/
theorem not_neverLess :
    (lapsing.Measured .default "w" ⟨"k"⟩ ∧ (shop "until_executed").Calm ∧
      ((shop "until_executed").strategyFor "w").locks = true ∧
      ∃ log s', lapsing.journal? .default (shop "until_executed") = some (log, s') ∧
        ¬ NeverLess ⟨"k"⟩ log) ∧
    rebasing.Measured .default "w" ⟨"k"⟩ ∧ briefShop.Calm ∧
      (briefShop.strategyFor "w").locks = true ∧
      ∃ log s', rebasing.journal? .default briefShop = some (log, s') ∧ ¬ NeverLess ⟨"k"⟩ log := by
  refine ⟨⟨⟨⟨rfl, rfl, rfl⟩, trivial, ⟨rfl, rfl, rfl⟩, trivial, ⟨rfl, rfl, rfl⟩, trivial, trivial⟩,
    ⟨rfl, rfl⟩, rfl, ?_⟩, ⟨⟨rfl, rfl, rfl⟩, trivial, ⟨rfl, rfl, rfl⟩, trivial, ⟨rfl, rfl, rfl⟩,
      trivial, ⟨rfl, rfl, rfl⟩, trivial, trivial⟩, ⟨rfl, rfl⟩, rfl, ?_⟩
  · have hrun : (lapsing.journal? .default (shop "until_executed")).map
        (fun r ↦ r.1.map (Note.excerpt ⟨"k"⟩ "main")) =
          some ([.nothing, .offered ⟨.schedule, ⟨"a"⟩, []⟩ "0/100",
              .told ⟨.schedule, ⟨"a"⟩, []⟩ (some "0/100") Option.none, .nothing, .nothing, .nothing,
              .nothing, .offered ⟨.schedule, ⟨"b"⟩, [false]⟩ "0/50", .nothing,
              .read ⟨.perform, ⟨"a"⟩, [false, false]⟩] ++
            .told ⟨.perform, ⟨"a"⟩, [false, false]⟩ (some "0/100") (some "0/50") ::
            [.nothing, .nothing, .nothing]) := by
      decide +kernel
    exact exists_not_neverLess (p := 80) (q := 256) hrun rfl (.tail _ (.head _)) rfl rfl (by decide)
  · have hrun : (rebasing.journal? .default briefShop).map
        (fun r ↦ r.1.map (Note.excerpt ⟨"k"⟩ "main")) =
          some ([.nothing, .offered ⟨.schedule, ⟨"a"⟩, []⟩ "0/100",
              .told ⟨.schedule, ⟨"a"⟩, []⟩ (some "0/100") Option.none, .nothing, .nothing, .nothing,
              .nothing, .offered ⟨.schedule, ⟨"b"⟩, [false]⟩ "0/50",
              .told ⟨.schedule, ⟨"b"⟩, [false]⟩ (some "0/50") Option.none, .nothing, .nothing,
              .nothing, .offered ⟨.schedule, ⟨"c"⟩, [false, false]⟩ "0/60", .nothing,
              .read ⟨.perform, ⟨"a"⟩, [false, false, false]⟩] ++
            .told ⟨.perform, ⟨"a"⟩, [false, false, false]⟩ (some "0/100") (some "0/60") ::
            [.nothing, .nothing, .nothing]) := by
      decide +kernel
    exact exists_not_neverLess (p := 96) (q := 256) hrun rfl (.tail _ (.head _)) rfl rfl (by decide)

end Traffic

end UniqueJobs
