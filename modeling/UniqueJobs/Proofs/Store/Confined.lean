import UniqueJobs.Proofs.Store.Batch

/-!
Operations of the local store that keep to some of the names. Stores that agree on these names answer
such an operation alike and agree on them afterwards; under all other names it leaves what is live as
it is. A release deletes what it finds named in a set, so the names that sets hold are watched as
well. Main statements: `Confined.carryOutAll`, `Confined.advance` and `Confined.release`.
-/

namespace UniqueJobs

/-- Does a set hold no names but allowed ones? -/
def Content.Holds (P : String → Prop) : Content → Prop
  | .names set => ∀ name, set.contains name = true → P name
  | _ => True

/-- Does a request mention none but the names, and put none but allowed ones into a set? -/
def Request.Within (N P : String → Prop) : Request → Prop
  | .setIfAbsent key _ _ | .get key | .item key _ => N key
  | .delete keys => ∀ key ∈ keys, N key
  | .addNames key names _ => N key ∧ ∀ name ∈ names, P name

namespace Entries

variable {N P : String → Prop} {now : Instant} {α β : Type}

def Agree (N : String → Prop) (now : Instant) (es es' : Entries) : Prop :=
  ∀ name, N name → es.live? now name = es'.live? now name

def Holds (P : String → Prop) (now : Instant) (es : Entries) : Prop :=
  ∀ name e, es.live? now name = some e → e.content.Holds P

theorem Holds.wait {es : Entries} {t : Instant} (h : Holds P now es) (ht : now.nanos ≤ t.nanos) :
    Holds P t es := by
  intro name e he
  rw [live?_of_le ht, Option.filter_eq_some_iff] at he
  exact h name e he.1

theorem Agree.wait {es es' : Entries} {t : Instant} (h : Agree N now es es')
    (ht : now.nanos ≤ t.nanos) : Agree N t es es' := by
  intro name hname
  rw [live?_of_le ht, live?_of_le ht, h name hname]

/-- An operation that keeps to the names of `N` and puts none but names of `P` into sets. -/
structure Confined (N P : String → Prop) (now : Instant) (f : Entries → α × Entries) : Prop where
  answer : ∀ es es', Agree N now es es' → (f es).1 = (f es').1
  agree : ∀ es es', Agree N now es es' → Agree N now (f es).2 (f es').2
  frame : ∀ es, Holds P now es → ∀ name, ¬ N name →
    live? now name (f es).2 = es.live? now name
  holds : ∀ es, Holds P now es → Holds P now (f es).2

namespace Confined

theorem const (a : α) : Confined N P now fun es ↦ (a, es) where
  answer _ _ _ := rfl
  agree _ _ h := h
  frame _ _ _ _ := rfl
  holds _ h := h

theorem congr {f f' : Entries → α × Entries} (h : Confined N P now f) (hf : ∀ es, f' es = f es) :
    Confined N P now f' := by
  obtain rfl : f' = f := funext hf
  exact h

theorem map {f : Entries → α × Entries} (h : Confined N P now f) (g : α → β) :
    Confined N P now fun es ↦ (g (f es).1, (f es).2) where
  answer es es' hes := congrArg g (h.answer es es' hes)
  agree := h.agree
  frame := h.frame
  holds := h.holds

/-- One operation, and where it succeeds another one that may depend on its result. -/
theorem andThen {ε : Type} {f : Entries → Except ε α × Entries}
    {next : α → Entries → Except ε β × Entries} (hf : Confined N P now f)
    (hnext : ∀ a, Confined N P now (next a)) :
    Confined N P now fun es ↦
      match f es with
      | (.error e, es) => (.error e, es)
      | (.ok a, es) => next a es := by
  -- Stores that agree take the same branch, the first operation having answered both alike.
  have hpair : ∀ es es', Agree N now es es' →
      (∃ e es₁ es₁', f es = (.error e, es₁) ∧ f es' = (.error e, es₁') ∧ Agree N now es₁ es₁') ∨
        ∃ a es₁ es₁', f es = (.ok a, es₁) ∧ f es' = (.ok a, es₁') ∧ Agree N now es₁ es₁' := by
    intro es es' hes
    have hanswer := hf.answer es es' hes
    have hagree := hf.agree es es' hes
    rcases hfst : f es with ⟨r, es₁⟩
    rcases hsnd : f es' with ⟨r', es₁'⟩
    rw [hfst, hsnd] at hanswer hagree
    obtain rfl : r = r' := hanswer
    cases r with
    | error e => exact .inl ⟨e, es₁, es₁', rfl, rfl, hagree⟩
    | ok a => exact .inr ⟨a, es₁, es₁', rfl, rfl, hagree⟩
  constructor
  · intro es es' hes
    rcases hpair es es' hes with ⟨e, es₁, es₁', hfst, hsnd, -⟩ | ⟨a, es₁, es₁', hfst, hsnd, hagree⟩
    · rw [hfst, hsnd]
    · rw [hfst, hsnd]
      exact (hnext a).answer es₁ es₁' hagree
  · intro es es' hes
    rcases hpair es es' hes with ⟨e, es₁, es₁', hfst, hsnd, hagree⟩ |
      ⟨a, es₁, es₁', hfst, hsnd, hagree⟩
    · rw [hfst, hsnd]
      exact hagree
    · rw [hfst, hsnd]
      exact (hnext a).agree es₁ es₁' hagree
  · intro es hes name hname
    have hframe := hf.frame es hes name hname
    have hholds := hf.holds es hes
    rcases hfst : f es with ⟨_ | a, es₁⟩
    · rwa [hfst] at hframe
    · rw [hfst] at hframe hholds
      exact ((hnext a).frame es₁ hholds name hname).trans hframe
  · intro es hes
    have hholds := hf.holds es hes
    rcases hfst : f es with ⟨_ | a, es₁⟩
    · rwa [hfst] at hholds
    · rw [hfst] at hholds
      exact (hnext a).holds es₁ hholds

/-- An operation under one name, which looks at nothing but the entry that is live there. -/
theorem of_update {f : Entries → α × Entries} {target : String} (htarget : N target)
    (update : Option Entry → Option Entry)
    (hanswer : ∀ es es', es.live? now target = es'.live? now target → (f es).1 = (f es').1)
    (hlive : ∀ es other, live? now other (f es).2 =
      if target = other then update (es.live? now target) else es.live? now other)
    (hupdate : ∀ found, (∀ e, found = some e → e.content.Holds P) →
      ∀ e, update found = some e → e.content.Holds P) :
    Confined N P now f where
  answer es es' hes := hanswer es es' (hes target htarget)
  agree es es' hes name hname := by rw [hlive, hlive, hes target htarget, hes name hname]
  frame es _ name hname := by
    have hne : target ≠ name := by
      intro heq
      subst heq
      exact hname htarget
    rw [hlive, if_neg hne]
  holds es hes name e he := by
    rw [hlive] at he
    by_cases heq : target = name
    · rw [if_pos heq] at he
      exact hupdate _ (hes target) e he
    · rw [if_neg heq] at he
      exact hes name e he

theorem of_reading {f : Entries → α × Entries} {target : String} (htarget : N target)
    (hanswer : ∀ es es', es.live? now target = es'.live? now target → (f es).1 = (f es').1)
    (hlive : ∀ es other, live? now other (f es).2 = es.live? now other) : Confined N P now f :=
  of_update htarget id hanswer
    (fun es other ↦ (hlive es other).trans (live?_eq_ite rfl other)) (fun _ h ↦ h)

variable {name : String}

theorem getText (h : N name) : Confined N P now (Entries.getText now name) :=
  of_reading h (fun es es' hes ↦ by rw [getText_fst, getText_fst, hes])
    (fun es other ↦ live?_getText name other es)

theorem getItem (h : N name) (index : Int) : Confined N P now (Entries.getItem now name index) :=
  of_reading h (fun es es' hes ↦ by rw [getItem_fst, getItem_fst, hes])
    (fun es other ↦ live?_getItem name index es other)

theorem setIfAbsent (h : N name) (value : String) (ttl : Duration) :
    Confined N P now (Entries.setIfAbsent now name value ttl) := by
  refine of_update h (fun found ↦ some (found.getD ⟨.text value, deadline now ttl⟩)) ?_
    (live?_setIfAbsent name value ttl) ?_
  · intro es es' hes
    rw [setIfAbsent_fst, setIfAbsent_fst, hes]
  · intro found hfound e he
    cases found with
    | none =>
      cases he
      trivial
    | some e₀ => exact hfound e he

theorem holds_joined {names : List String} (hnames : ∀ name ∈ names, P name)
    (expiry : Option Instant) (found : Option Entry)
    (hfound : ∀ e, found = some e → e.content.Holds P) (e : Entry)
    (he : joined names expiry found = some e) : e.content.Holds P := by
  rcases found with _ | ⟨_ | _ | set, x⟩
  · cases he
    exact fun name hname ↦ hnames name ((NameSet.contains_ofNames names name).mp hname)
  · exact hfound e he
  · exact hfound e he
  · cases he
    intro name hname
    rcases (NameSet.contains_addNew set names name).mp hname with hnew | hold
    · exact hnames name hnew
    · exact hfound _ rfl name hold

theorem addNames (h : N name) {names : List String} (hnames : ∀ name ∈ names, P name)
    (ttl : Duration) : Confined N P now (Entries.addNames now name names ttl) :=
  of_update h (joined names (deadline now ttl))
    (fun es es' hes ↦ by rw [addNames_fst, addNames_fst, hes])
    (live?_addNames name names ttl) (holds_joined hnames _)

theorem raise (h : N name) (location : String) (offset : Int64) (ttl : Duration) :
    Confined N P now (Entries.raise now name location offset ttl) := by
  refine of_update h (raised location offset (deadline now ttl)) ?_
    (live?_raise name location offset ttl) ?_
  · intro es es' hes
    simp only [Entries.raise, get?_purge, hes]
    rcases es'.live? now name with _ | ⟨_ | items | _, x⟩
    · rfl
    · rfl
    · simp only
      split
      · rfl
      · split <;> rfl
    · rfl
  · intro found hfound e he
    rcases found with _ | ⟨_ | items | _, x⟩
    · cases he
      trivial
    · exact hfound e he
    · rw [raised_list] at he
      split at he
      · exact hfound e he
      · split at he
        · cases he
          trivial
        · exact hfound e he
    · exact hfound e he

theorem delete {names : List String} (hnames : ∀ name ∈ names, N name) :
    Confined N P now (Entries.delete now names) where
  answer es es' hes := by
    induction names generalizing es es' with
    | nil => rfl
    | cons name rest ih =>
      have hrest := ih fun name hname ↦ hnames name (List.mem_cons_of_mem _ hname)
      have hpurged : Agree N now (es.purge now name) (es'.purge now name) := by
        intro other hother
        rw [live?_purge, live?_purge, hes other hother]
      simp only [Entries.delete, get?_purge, hes name (hnames name List.mem_cons_self)]
      cases es'.live? now name with
      | none => exact hrest _ _ hpurged
      | some e =>
        refine congrArg (· + 1) (hrest _ _ ?_)
        intro other hother
        rw [live?_erase, live?_erase, hpurged other hother]
  agree es es' hes name hname := by rw [live?_delete, live?_delete, hes name hname]
  frame es _ name hname := by
    have hmem : name ∉ names := fun hmem ↦ hname (hnames name hmem)
    rw [live?_delete, if_neg hmem]
  holds es hes name e he := by
    rw [live?_delete] at he
    split at he
    · cases he
    · exact hes name e he

theorem carryOut {r : Request} (hr : r.Within N P) : Confined N P now (Entries.carryOut now r) := by
  cases r with
  | setIfAbsent key value ttl =>
    exact ((setIfAbsent hr value ttl).map fun written ↦ Except.ok (Reply.set written)).congr
      fun _ ↦ rfl
  | get key => exact ((getText hr).map (Except.map Reply.value)).congr fun _ ↦ rfl
  | item key index => exact ((getItem hr index).map (Except.map Reply.value)).congr fun _ ↦ rfl
  | delete keys =>
    exact ((delete hr).map fun n ↦ Except.ok (Reply.deleted n)).congr fun _ ↦ rfl
  | addNames key names ttl =>
    exact ((addNames hr.1 hr.2 ttl).map (Except.map Reply.added)).congr fun _ ↦ rfl

theorem carryOutAll {l : List Request} (hl : ∀ r ∈ l, r.Within N P) :
    Confined N P now (Entries.carryOutAll now l) := by
  induction l with
  | nil => exact const (Except.ok [])
  | cons r rest ih =>
    have hrest := ih fun r hr ↦ hl r (List.mem_cons_of_mem _ hr)
    refine ((carryOut (hl r List.mem_cons_self)).andThen fun reply ↦
      hrest.map (Except.map (reply :: ·))).congr ?_
    intro es
    rcases hfirst : Entries.carryOut now r es with ⟨e | reply, es₁⟩
    · exact carryOutAll_cons_of_error hfirst rest
    · exact carryOutAll_cons_of_ok hfirst rest

theorem advance {list configs config : String} (hlist : N list) (hconfigs : N configs)
    (hconfig : P config) (location offset ttl : String) :
    Confined N P now
      (Entries.advance now [list, configs] [location, offset, ttl, config]) := by
  cases ho : Text.readInt64 offset.toList with
  | error f =>
    refine (const (Except.error (StoreError.script (.offset offset f)))).congr ?_
    intro es
    simp only [Entries.advance, ho]
  | ok o =>
    cases hd : Text.readNat 10 (UInt64.size - 1) ttl.toList with
    | error f =>
      refine (const (Except.error (StoreError.script (.ttl ttl f)))).congr ?_
      intro es
      simp only [Entries.advance, ho, hd]
    | ok millis =>
      have hnames : ∀ name ∈ [config], P name := by
        intro name hname
        rwa [List.mem_singleton.mp hname]
      refine ((raise hlist location o (.ofMillis millis)).andThen fun _ ↦
        (addNames hconfigs hnames (.ofMillis millis)).map (Except.map fun _ ↦ ())).congr ?_
      intro es
      simp only [Entries.advance, ho, hd]
      rcases Entries.raise now list location o (.ofMillis millis) es with ⟨_ | _, es₁⟩ <;> rfl

theorem holds_registered {found : Option Entry} {set : NameSet}
    (hfound : ∀ e, found = some e → e.content.Holds P) (hset : registered found = some set)
    {config : String} (hconfig : set.contains config = true) : P config := by
  rcases found with _ | ⟨_ | _ | held, x⟩
  · cases hset
    simp [Dictionary.contains] at hconfig
  · cases hset
  · cases hset
  · cases hset
    exact hfound _ rfl config hconfig

/-- A release deletes position records of the configs that it is given or finds in a set. -/
theorem release {key flag configs : String} {args : List String}
    (hkeys : ∀ name ∈ [key, flag, configs], N name)
    (hpositions : ∀ config, P config → ∀ name ∈ positionKeys key config, N name)
    (hargs : ∀ config ∈ args, P config) :
    Confined N P now (Entries.release now [key, flag, configs] args) where
  answer es es' hes := by rw [release_fst, release_fst, hes configs (hkeys configs (by simp))]
  agree es es' hes name hname := by
    rw [live?_release, live?_release, hes configs (hkeys configs (by simp)), hes name hname]
  frame es hes name hname := by
    rw [live?_release]
    cases hset : registered (es.live? now configs) with
    | none => rfl
    | some set =>
      have hsafe : name ∉ doomed key flag configs args set := by
        intro hmem
        rcases mem_doomed.mp hmem with hmem | ⟨config, hconfig, hmem⟩
        · exact hname (hkeys name hmem)
        · have hP : P config := hconfig.elim (hargs config) (holds_registered (hes configs) hset)
          exact hname (hpositions config hP name hmem)
      exact if_neg hsafe
  holds es hes name e he := by
    rw [live?_release] at he
    split at he
    · exact hes name e he
    · split at he
      · cases he
      · exact hes name e he

end Confined

end Entries

end UniqueJobs
