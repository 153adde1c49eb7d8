import UniqueJobs.Proofs.Contest.Basic
import UniqueJobs.Proofs.Job.Key

/-!
Instances of different logical jobs never take notice of one another. Main statement:
`jobs_never_interfere`, that a contest between instances of many jobs is for each of the jobs the
contest that is left when the calls of all others are struck out.
-/

namespace UniqueJobs.Contest

open Entries

/-- Does a call offer no locations but of configs of the kind? -/
def Call.Within (P : String → Prop) : Call → Prop
  | .offer locations _ => ∀ p ∈ locations, P p.1
  | _ => True

theorem Call.confined {P : String → Prop} {c : Claimant} (hc : c.Within P) {call : Call}
    (hcall : call.Within P) : Site.Confined (c.key.Owns P) P (call.act c) := by
  cases call with
  | check window => exact (Site.confined_check hc window).bind fun _ ↦ .pure _
  | offer locations measure => exact (Site.confined_offer c hcall measure).bind fun _ ↦ .pure _
  | offerLocations measure =>
    have hlocations : ∀ p ∈ c.locations.entries, P p.1 :=
      fun p hp ↦ hc p.1 (List.mem_map_of_mem hp)
    rw [Call.act, Claimant.offerLocations]
    split
    · exact .pure _
    · split
      · exact .pure _
      · exact (Site.confined_offer c hlocations measure).bind fun _ ↦ .pure _
  | readLatest => exact (Site.confined_readLatest hc).bind fun _ ↦ .pure _
  | setFlag ttl => exact (Site.confined_setFlag c ttl).bind fun _ ↦ .pure _
  | flagged => exact (Site.confined_flagged c).bind fun _ ↦ .pure _
  | release => exact (Site.confined_release hc).bind fun _ ↦ .pure _

variable {ι : Type}

/-- No locations are offered in the turn but of configs of the kind, and the store is not told to
fail: the calls to come are counted for that, whosever they are. It may be switched off. -/
def Turn.Within (P : String → Prop) : Turn ι → Prop
  | .call _ made => made.Within P
  | .fail .. => False
  | _ => True

/-- Does a turn matter to a key: is it a call of an instance with that key, or no call at all? -/
def Turn.concerns (keys : ι → JobKey) (k : JobKey) : Turn ι → Bool
  | .call i _ => keys i = k
  | _ => true

/-- Instances of logical jobs of one keyspace, with no colon in the name of a config, at a site that
answers every call while it is switched on. -/
structure Parties (keyspace : String) (g : Contest ι) : Prop where
  orderly : g.site.Orderly ColonFree
  derived : ∀ i, (g.claimant i).key.DerivedIn keyspace
  within : ∀ i, (g.claimant i).Within ColonFree

/-- For one key, the contest stands where the other one stands that has fewer calls behind it. -/
structure Mirrors (k : JobKey) (g g' : Contest ι) : Prop where
  site : Site.Agree (k.Owns ColonFree) g.site g'.site
  claimant : ∀ i, (g.claimant i).key = k → g'.claimant i = g.claimant i

variable {keyspace : String} {k : JobKey} {g g' : Contest ι}

theorem Parties.honest (h : g.Parties keyspace) : g.site.Honest :=
  .of_cues_eq_nil h.orderly.quiet

theorem Mirrors.refl (h : g.site.cues = []) : g.Mirrors k g :=
  ⟨⟨rfl, rfl, h, h, fun _ _ ↦ rfl⟩, fun _ _ ↦ rfl⟩

variable [DecidableEq ι] {t : Turn ι}

theorem play_call_eq (g : Contest ι) (i : ι) (call : Call) :
    g.play (.call i call) =
      (some (Id.run ((call.act (g.claimant i)).run g.site)).1.1,
        ⟨(Id.run ((call.act (g.claimant i)).run g.site)).2,
          Function.update g.claimant i (Id.run ((call.act (g.claimant i)).run g.site)).1.2⟩) := rfl

theorem Parties.play (h : g.Parties keyspace) (ht : t.Within ColonFree) :
    (g.play t).2.Parties keyspace := by
  have halike := (play_alike h.honest t).1
  refine ⟨?_, fun i ↦ ?_, fun i ↦ ?_⟩
  · cases t with
    | call i call => exact (Call.confined (h.within i) ht).orderly _ h.orderly
    | wait d => exact ⟨h.orderly.quiet, h.orderly.holds.wait (Nat.le_add_right _ _)⟩
    | switch available => exact ⟨h.orderly.quiet, h.orderly.holds⟩
    | fail => exact False.elim ht
  · rw [(halike i).key]
    exact h.derived i
  · intro config hconfig
    rw [(halike i).locations] at hconfig
    exact h.within i config hconfig

/-- A turn that concerns the key is answered alike on both sides. -/
theorem Mirrors.play (h : g.Mirrors k g') (hg : g.Parties keyspace) (ht : t.Within ColonFree)
    (hown : t.concerns (fun i ↦ (g.claimant i).key) k = true) :
    (g'.play t).1 = (g.play t).1 ∧ (g.play t).2.Mirrors k (g'.play t).2 := by
  have halike := (play_alike hg.honest t).1
  cases t with
  | fail => exact False.elim ht
  | wait d =>
    have hsite : Site.Agree (k.Owns ColonFree) (g.site.advance d) (g'.site.advance d) := by
      refine ⟨?_, h.site.available, h.site.quiet, h.site.quiet',
        h.site.entries.wait (Nat.le_add_right _ _)⟩
      simp only [Site.advance, h.site.clock]
    exact ⟨rfl, hsite, h.claimant⟩
  | switch available =>
    exact ⟨rfl, ⟨h.site.clock, rfl, h.site.quiet, h.site.quiet', h.site.entries⟩, h.claimant⟩
  | call i call =>
    have hkey : (g.claimant i).key = k := by simpa [Turn.concerns] using hown
    have hconfined := Call.confined (hg.within i) ht
    rw [hkey] at hconfined
    have hanswer := hconfined.answer _ _ h.site
    have hagree := hconfined.agree _ _ h.site
    rw [play_call_eq, play_call_eq, h.claimant i hkey, ← hanswer]
    refine ⟨rfl, hagree, ?_⟩
    intro j hj
    rw [play_call_eq] at halike
    have hjk : (g.claimant j).key = k := (halike j).key.symm.trans hj
    simp only [Function.update_apply, h.claimant j hjk]

/-- A call of an instance of another job changes nothing that matters to the key. -/
theorem Mirrors.play_other (h : g.Mirrors k g') (hg : g.Parties keyspace)
    (hk : k.DerivedIn keyspace) (ht : t.Within ColonFree)
    (hother : ¬ t.concerns (fun i ↦ (g.claimant i).key) k = true) :
    (g.play t).2.Mirrors k g' := by
  have halike := (play_alike hg.honest t).1
  cases t with
  | wait | switch | fail => exact absurd rfl hother
  | call i call =>
    have hkey : (g.claimant i).key ≠ k := by simpa [Turn.concerns] using hother
    have hconfined := Call.confined (hg.within i) ht
    have hframe := hconfined.frame _ hg.orderly
    rw [play_call_eq] at halike ⊢
    refine ⟨⟨hframe.clock.trans h.site.clock, hframe.available.trans h.site.available,
      (hconfined.orderly _ hg.orderly).quiet, h.site.quiet', ?_⟩, ?_⟩
    · intro name hname
      have hforeign : ¬ (g.claimant i).key.Owns ColonFree name :=
        JobKey.not_owns_of_ne hk (hg.derived i) hkey.symm hname
      rw [hframe.clock, hframe.entries name hforeign]
      exact h.site.entries name hname
    · intro j hj
      have hjk : (g.claimant j).key = k := (halike j).key.symm.trans hj
      have hne : j ≠ i := by
        intro heq
        subst heq
        exact hkey hjk
      rw [h.claimant j hjk]
      exact (Function.update_of_ne hne _ _).symm

theorem Mirrors.run {keys : ι → JobKey} {turns : List (Turn ι)} (h : g.Mirrors k g')
    (hg : g.Parties keyspace) (hk : k.DerivedIn keyspace) (hkeys : ∀ i, (g.claimant i).key = keys i)
    (hturns : ∀ t ∈ turns, t.Within ColonFree) :
    (g.history turns).filter (fun p ↦ p.1.concerns keys k) =
        g'.history (turns.filter (·.concerns keys k)) ∧
      (g.after turns).Mirrors k (g'.after (turns.filter (·.concerns keys k))) := by
  induction turns generalizing g g' with
  | nil => exact ⟨rfl, h⟩
  | cons t rest ih =>
    have ht := hturns t List.mem_cons_self
    have hrest := fun t hmem ↦ hturns t (List.mem_cons_of_mem _ hmem)
    have hsame : (fun i ↦ (g.claimant i).key) = keys := funext hkeys
    have hnext := hg.play ht
    have hkeys' : ∀ i, ((g.play t).2.claimant i).key = keys i :=
      fun i ↦ ((play_alike hg.honest t).1 i).key.trans (hkeys i)
    by_cases hown : t.concerns keys k = true
    · obtain ⟨hanswer, hmirrors⟩ := h.play hg ht (by rwa [hsame])
      obtain ⟨hhistory, hend⟩ := ih hmirrors hnext hkeys' hrest
      rw [history, List.filter_cons_of_pos (by exact hown), List.filter_cons_of_pos hown, hhistory,
        history, hanswer]
      exact ⟨rfl, hend⟩
    · obtain ⟨hhistory, hend⟩ := ih (h.play_other hg hk ht (by rwa [hsame])) hnext hkeys' hrest
      rw [history, List.filter_cons_of_neg (by exact hown), List.filter_cons_of_neg hown, hhistory]
      exact ⟨rfl, hend⟩

/-- Keyless jobs of a keyspace get the same key if they agree on queue and digest, and only then. In
a contest that begins with an empty store, what becomes of one key is what would become of it had the
calls of all instances of other jobs never been made: every answer, what instances know, and every
live record. -/
theorem jobs_never_interfere :
    (∀ (keyspace : String) (j : Job), j.key = none →
      IsDigest (Job.digest j.worker j.args) ∧ (j.identify keyspace).1.DerivedIn keyspace ∧
      ∀ j' : Job, j'.key = none → ((j.identify keyspace).1 = (j'.identify keyspace).1 ↔
        j.queue = j'.queue ∧ Job.digest j.worker j.args = Job.digest j'.worker j'.args)) ∧
    ∀ (ι : Type) [DecidableEq ι] (keyspace : String) (start : Contest ι) (turns : List (Turn ι))
      (k : JobKey), start.site.store.entries = .empty → start.site.cues = [] →
      (∀ i, (start.claimant i).key.DerivedIn keyspace ∧ (start.claimant i).Within ColonFree) →
      k.DerivedIn keyspace → (∀ t ∈ turns, t.Within ColonFree) →
      let own : Turn ι → Bool := Turn.concerns (fun i ↦ (start.claimant i).key) k
      let alone := turns.filter own
      (start.history turns).filter (fun p ↦ own p.1) = start.history alone ∧
      (∀ i, (start.claimant i).key = k →
        (start.after turns).claimant i = (start.after alone).claimant i) ∧
      ∀ r : Record, r.Within ColonFree →
        (start.after turns).live? (r.name k) = (start.after alone).live? (r.name k) := by
  constructor
  · intro keyspace j hj
    refine ⟨isDigest_sha256 _, ?_, fun j' hj' ↦ Job.identify_eq_iff keyspace hj hj'⟩
    simp only [Job.identify, hj]
    exact JobKey.derivedIn_derive keyspace j.queue j.worker j.args
  · intro ι _ keyspace start turns k hempty hquiet hclaimants hk hturns own alone
    have hparties : start.Parties keyspace := by
      refine ⟨⟨hquiet, ?_⟩, fun i ↦ (hclaimants i).1, fun i ↦ (hclaimants i).2⟩
      intro name e he
      rw [hempty] at he
      cases he
    obtain ⟨hhistory, hmirrors⟩ :=
      (Mirrors.refl (k := k) hquiet).run hparties hk (fun _ ↦ rfl) hturns
    refine ⟨hhistory, fun i hi ↦ ?_, fun r hr ↦ ?_⟩
    · have hkey := ((after_alike hparties.honest turns).1 i).key.trans hi
      exact (hmirrors.claimant i hkey).symm
    · rw [live?, live?, ← hmirrors.site.clock]
      exact hmirrors.site.entries _ ⟨r, hr, rfl⟩

/-- Two instances of different jobs, the key of the one being the beginning of the key of the
other. -/
def neighbours : Contest Bool where
  site := .opened 0 ⟨0⟩
  claimant b := ⟨.default, "w", none, ⟨if b then "b" else "a"⟩,
    if b then .ofDigest "app" ("q:" ++ String.ofList (List.replicate 64 'e'))
      (String.ofList (List.replicate 64 '0'))
    else .ofDigest "app" "q" (String.ofList (List.replicate 64 'e')),
    Dictionary.empty.insert "main" (if b then "0/2" else "0/1"), none, none, .empty, none⟩

theorem isDigest_replicate {c : Char} (hc : c ∈ "0123456789abcdef".toList) :
    IsDigest (String.ofList (List.replicate 64 c)) := by
  refine ⟨by simp, ?_⟩
  intro c' hc'
  rw [String.toList_ofList] at hc'
  rwa [List.eq_of_mem_replicate hc']

/-- The release of the one leaves the other its window. -/
theorem jobs_never_interfere_neighbours :
    let turns : List (Turn Bool) := [.call false (.check (.ofMillis 1000)),
      .call true (.check (.ofMillis 1000)), .call true .release]
    (neighbours.after turns).live? (neighbours.claimant false).key.text =
      some ⟨.text "a", some ⟨1_000_000_000⟩⟩ := by
  intro turns
  have hdigest : IsDigest (String.ofList (List.replicate 64 'e')) := isDigest_replicate (by decide)
  have hdigest' : IsDigest (String.ofList (List.replicate 64 '0')) := isDigest_replicate (by decide)
  have hmain : ∀ config ∈ ["main"], ColonFree config := by decide
  have hclaimants : ∀ b, (neighbours.claimant b).key.DerivedIn "app" ∧
      (neighbours.claimant b).Within ColonFree := by
    intro b
    cases b with
    | false => exact ⟨⟨_, _, hdigest, rfl⟩, hmain⟩
    | true => exact ⟨⟨_, _, hdigest', rfl⟩, hmain⟩
  have hturns : ∀ t ∈ turns, t.Within ColonFree := by simp [turns, Turn.Within, Call.Within]
  have h := jobs_never_interfere.2 Bool "app" neighbours turns (neighbours.claimant false).key rfl rfl
    hclaimants (hclaimants false).1 hturns
  exact (h.2.2 .holder trivial).trans (by decide +kernel)

end UniqueJobs.Contest
