/-
# Properties that an app sets, in conditions and in the history

An app sets properties from a JSON object. Conditions read each value that was accepted from then
on, whatever becomes of the call, and all other properties are as before. If the call succeeds, the
history has a new sample of each of these properties, and tells the value as the latest one, unless
the clock is behind the samples before it.

A call that fails for one member records none of them. The values that were accepted are then read
by conditions, while the history tells older ones.
-/

import Targeting.Client.Environment
import Targeting.Proofs.Client.Run
import Targeting.Proofs.History.Sampling
import Targeting.Proofs.Property.Members

namespace Targeting

/-! ## Reading what was set -/

namespace Registry

variable {r : Registry} {name : String} {v : PropertyValue}

/-- All that a text sets is registered under its name. -/
theorem provider?_of_mem_taken {bytes : List UInt8} (h : (name, v) ∈ r.taken bytes) :
    (r.setCustomJson bytes).2.provider? name = some (.fixed v) := by
  rw [snd_setCustomJson_eq]
  exact provider?_putAll_of_mem (nodup_taken r bytes) h

end Registry

namespace Client

variable {μ : Type} {host : Host μ}

/-- A condition reads a property of the app as it was set, and changes nothing by that. -/
theorem property_of_fixed {c : Client} {name : String} {v : PropertyValue}
    (h : c.registry.provider? name = some (.fixed v)) (hsampling : Registry.sampling name ≠ .onUse)
    (s : Surroundings μ) :
    (c.environment host).property name s = (some (.ofProperty v), s) := by
  simp only [environment, Registry.value_of_fixed h, if_neg hsampling]

/-! ## Recording what was set -/

variable (host)

/-- What is recorded about a value that the app has set. -/
def setSample (entry : String × PropertyValue) : String × PropertyValue × Sampling :=
  (entry.1, entry.2, .onCustomSet)

/-- Recording values that the app has set adds a row for each of them, in order. -/
theorem recordSamples_run {entries : List (String × PropertyValue)} {w : World μ}
    (hnames : ∀ entry ∈ entries, entry.1 ≠ "") (hstarted : w.client.store.isStarted) :
    ∃ recorded : List Sample, recorded.map (fun x => (x.name, x.value)) = entries ∧
      (∀ x ∈ recorded, x.sampling = .onCustomSet) ∧
      (recordSamples host (entries.map setSample) w).2.client.store.isStarted ∧
      (recordSamples host (entries.map setSample) w).2.client.store.ledger.samples =
        w.client.store.ledger.samples ++ recorded.map Sample.row := by
  induction entries generalizing w with
  | nil => exact ⟨[], rfl, nofun, hstarted, (List.append_nil _).symm⟩
  | cons entry rest ih =>
      obtain ⟨name, v⟩ := entry
      obtain ⟨hname, hrest⟩ := List.forall_mem_cons.1 hnames
      let x : Sample := ⟨name, v, .onCustomSet, (host.now w.memory).1⟩
      let w₁ : World μ := (recordSample host name v .onCustomSet w).2
      have hfirst := Store.recordsSample_of_isStarted hstarted x
      obtain ⟨recorded, hentries, hsampling, hafter, hsamples⟩ :=
        @ih w₁ hrest hfirst.staysStarted
      refine ⟨x :: recorded, congrArg ((name, v) :: ·) hentries, ?_, hafter, ?_⟩
      · exact List.forall_mem_cons.2 ⟨rfl, hsampling⟩
      · have hrow : w₁.client.store.ledger.samples = w.client.store.ledger.samples ++ [x.row] :=
          hfirst.unlimited hname (.inr rfl)
        exact hsamples.trans (by rw [hrow, List.map_cons, List.append_assoc, List.singleton_append])

/-- The world once the registry has taken over what a text sets. -/
def afterSetting (w : World μ) (bytes : List UInt8) : World μ :=
  { w with client := { w.client with registry := (w.client.registry.setCustomJson bytes).2 } }

/-- What was set is read back from the registry to be recorded. -/
theorem samplesOf_taken (bytes : List UInt8) (w : World μ) :
    samplesOf host ((w.client.registry.taken bytes).map Prod.fst) (afterSetting w bytes) =
      ((w.client.registry.taken bytes).map setSample, afterSetting w bytes) := by
  have hfixed : ∀ entry ∈ w.client.registry.taken bytes,
      (afterSetting w bytes).client.registry.provider? entry.1 = some (.fixed entry.2) :=
    fun _ => Registry.provider?_of_mem_taken
  have hsampling : (w.client.registry.taken bytes).map
      (fun entry => (entry.1, entry.2, Registry.sampling entry.1)) =
        (w.client.registry.taken bytes).map setSample :=
    List.map_congr_left fun entry hentry =>
      congrArg (entry.1, entry.2, ·) (Registry.of_mem_taken hentry).2.1
  simp only [samplesOf, Step.bind_apply, inSurroundings, Registry.valuesOf_of_fixed hfixed,
    Step.pure_apply, hsampling]

/-- Nothing is recorded unless all members are accepted; then all of them are. -/
theorem setCustomJson_run (bytes : List UInt8) (w : World μ) :
    (w.client.registry.TakesAll bytes ∧ setCustomJson host bytes w =
      (.ok (), (recordSamples host ((w.client.registry.taken bytes).map setSample)
        (afterSetting w bytes)).2)) ∨
      ¬ w.client.registry.TakesAll bytes ∧
        ∃ error, setCustomJson host bytes w = (.error error, afterSetting w bytes) := by
  rcases hset : w.client.registry.setCustomJson bytes with ⟨error | names, registry⟩
  · refine .inr ⟨fun hall => ?_, .property error, ?_⟩
    · have hok := Registry.setCustomJson_eq_ok_iff.2 ⟨hall, rfl⟩
      rw [hset] at hok
      cases hok
    · simp only [setCustomJson, Step.bind_apply, Step.current_apply, Step.change_apply, hset,
        Step.pure_apply, afterSetting]
  · obtain ⟨hall, rfl⟩ := Registry.setCustomJson_eq_ok_iff.1 (congrArg Prod.fst hset)
    have hsamples := samplesOf_taken host bytes w
    simp only [afterSetting, hset] at hsamples
    refine .inl ⟨hall, ?_⟩
    simp only [setCustomJson, Step.bind_apply, Step.current_apply, Step.change_apply, hset,
      hsamples, Step.pure_apply, afterSetting]

/-- Of several samples with different names, one has a given name. -/
theorem filter_name_eq_singleton {recorded : List Sample} {x : Sample}
    (hnames : (recorded.map Sample.name).Nodup) (hx : x ∈ recorded) :
    recorded.filter (fun y => y.name == x.name) = [x] := by
  induction recorded with
  | nil => cases hx
  | cons first rest ih =>
      obtain ⟨hfirst, hrest⟩ := List.nodup_cons.1 hnames
      obtain rfl | hx := List.mem_cons.1 hx
      · have hnone : rest.filter (fun y => y.name == x.name) = [] :=
          List.filter_eq_nil_iff.2 fun y hy hsame =>
            hfirst (List.mem_map.2 ⟨y, hy, eq_of_beq hsame⟩)
        simp [hnone]
      · have hne : first.name ≠ x.name := fun hsame =>
          hfirst (List.mem_map.2 ⟨x, hx, hsame.symm⟩)
        simp [hne, ih hrest hx]

/-- A sample that is not older than those before it gives the latest value. -/
theorem latestValue_of_samplesNamed {s : Store} {x : Sample} {old : List SampleRow}
    (hstarted : s.isStarted) (hsamples : s.ledger.samplesNamed x.name = old ++ [x.row])
    (hclock : ∀ row ∈ old, row.stamp ≤ x.stamp) (hkept : x.value.IsKept) :
    s.latestValue x.name = .ok (some x.value.withoutZeroSign) := by
  have hlatest : Ledger.latestBy? SampleRow.stamp (s.ledger.samplesNamed x.name) = some x.row := by
    rw [hsamples]
    exact Ledger.latestBy?_append_cons hclock nofun
  rw [Store.latestValue, Store.opened_of_isStarted hstarted]
  change Except.ok (s.ledger.latestValue? x.name) = _
  rw [Ledger.latestValue?, hlatest]
  exact congrArg Except.ok (Cells.value?_ofValue hkept)

/-- Whatever the answer, the client has the registry in which the accepted members are set. -/
theorem registry_setCustomJson (bytes : List UInt8) (w : World μ) :
    (setCustomJson host bytes w).2.client.registry = (w.client.registry.setCustomJson bytes).2 := by
  obtain ⟨-, hrun⟩ | ⟨-, error, hrun⟩ := setCustomJson_run host bytes w
  · have hstanding := (@recordSamples_keeps _ host _
      ((w.client.registry.taken bytes).map setSample) (afterSetting w bytes) rfl).1
    rw [hrun]
    exact congrArg Client.registry hstanding
  · rw [hrun]
    rfl

/-- When all members are accepted, each of them has a new sample. -/
theorem exists_sample_of_takesAll {bytes : List UInt8} {w : World μ} {name : String}
    {v : PropertyValue} (hstarted : w.client.store.isStarted)
    (hall : w.client.registry.TakesAll bytes) (hmem : (name, v) ∈ w.client.registry.taken bytes) :
    (setCustomJson host bytes w).2.client.store.isStarted ∧
      ∃ stamp, (setCustomJson host bytes w).2.client.store.ledger.samplesNamed name =
        w.client.store.ledger.samplesNamed name ++ [(Sample.mk name v .onCustomSet stamp).row] := by
  obtain ⟨-, hrun⟩ | ⟨hfail, -⟩ := setCustomJson_run host bytes w
  · have hnames : ∀ entry ∈ w.client.registry.taken bytes, entry.1 ≠ "" := fun entry hentry =>
      (Registry.of_mem_taken hentry).1
    obtain ⟨recorded, hentries, hsampling, hafter, hsamples⟩ :=
      recordSamples_run host (w := afterSetting w bytes) hnames hstarted
    have hnodup : (recorded.map Sample.name).Nodup := by
      have hsame : recorded.map Sample.name = (w.client.registry.taken bytes).map Prod.fst := by
        rw [← hentries, List.map_map]
        rfl
      exact hsame ▸ Registry.nodup_taken ..
    rw [← hentries] at hmem
    obtain ⟨⟨_, _, sampling, stamp⟩, hx, hentry⟩ := List.mem_map.1 hmem
    cases hentry
    obtain rfl : sampling = .onCustomSet := hsampling _ hx
    rw [hrun]
    refine ⟨hafter, stamp, ?_⟩
    rw [Ledger.samplesNamed, hsamples, List.filter_append, List.filter_map]
    exact congrArg (_ ++ List.map Sample.row ·) (filter_name_eq_singleton hnodup hx)
  · exact absurd hall hfail

variable {host}

/-- **Accepted members are read, and recorded if all are accepted.** After a text was given to a
client whose history has started, conditions read the value of each accepted member, and no other
name has another provider than before. If the call succeeds, the history has one more sample of each
name that was set, which tells its value as the latest one unless the clock is behind the samples
before it; only the sign of a zero is not told. If the call fails for one member, the history is as
it was. -/
theorem accepted_members_reach_history {w w' : World μ} {bytes : List UInt8} {outcome : Outcome}
    (hstarted : w.client.store.isStarted) (hrun : setCustomJson host bytes w = (outcome, w')) :
    let taken := w.client.registry.taken bytes
    (w.client.registry.setMembers (Registry.membersOf bytes)).1.accepted = taken.map Prod.fst ∧
      (∀ name v, (name, v) ∈ taken → ∀ s,
        (w'.client.environment host).property name s = (some (.ofProperty v), s)) ∧
      (∀ name ∉ taken.map Prod.fst,
        w'.client.registry.provider? name = w.client.registry.provider? name) ∧
      (outcome = .ok () ↔ w.client.registry.TakesAll bytes) ∧
      (outcome = .ok () → ∀ name v, (name, v) ∈ taken → ∃ stamp,
        w'.client.store.ledger.samplesNamed name = w.client.store.ledger.samplesNamed name ++
          [(Sample.mk name v .onCustomSet stamp).row] ∧
        ((∀ row ∈ w.client.store.ledger.samplesNamed name, row.stamp ≤ stamp) →
          w'.client.store.latestValue name = .ok (some v.withoutZeroSign))) ∧
      (outcome ≠ .ok () → w'.client.store = w.client.store) := by
  intro taken
  obtain ⟨-, haccepted, -⟩ :=
    Registry.setMembers_eq (Registry.membersOf_spec bytes).1 w.client.registry
  have hregistry : w'.client.registry = _ := hrun ▸ registry_setCustomJson host bytes w
  refine ⟨haccepted, fun name v hmem => ?_, fun name hname => ?_, ?_⟩
  · have hprovider := hregistry ▸ Registry.provider?_of_mem_taken hmem
    exact property_of_fixed hprovider (by simp [(Registry.of_mem_taken hmem).2.1])
  · rw [hregistry, Registry.snd_setCustomJson_eq]
    exact Registry.provider?_putAll_of_notMem hname
  · obtain ⟨hall, hset⟩ | ⟨hfail, error, hset⟩ := setCustomJson_run host bytes w
    · obtain ⟨rfl, -⟩ := Prod.mk.inj (hrun.symm.trans hset)
      refine ⟨iff_of_true rfl hall, fun _ name v hmem => ?_, fun hne => absurd rfl hne⟩
      have hsample := exists_sample_of_takesAll host hstarted hall hmem
      rw [hrun] at hsample
      obtain ⟨hafter, stamp, hsamples⟩ := hsample
      exact ⟨stamp, hsamples, fun hclock => @latestValue_of_samplesNamed w'.client.store
        ⟨name, v, .onCustomSet, stamp⟩ _ hafter hsamples hclock (Registry.of_mem_taken hmem).2.2⟩
    · obtain ⟨rfl, rfl⟩ := Prod.mk.inj (hrun.symm.trans hset)
      exact ⟨iff_of_false nofun hfail, nofun, fun _ => rfl⟩

/-- A plan and three seats. -/
def threeSeats : List UInt8 := "\x7b\"plan\":\"pro\",\"seats\":3\x7d".toUTF8.toList

/-- Four seats, and a member of no type that a property can have. -/
def fourSeats : List UInt8 := "\x7b\"extra\":null,\"seats\":4\x7d".toUTF8.toList

/-- The app has three seats, and then sets four of them in a call that fails for another member.
Conditions read four seats, but the history still tells three. -/
theorem seats_fall_behind :
    let w : World Unit := ⟨running (.empty "app"), ()⟩
    let w₁ := (setCustomJson .quiet threeSeats w).2
    let w₂ := (setCustomJson .quiet fourSeats w₁).2
    (setCustomJson .quiet fourSeats w₁).1 ≠ .ok () ∧
      (∀ s, (w₂.client.environment .quiet).property "custom_seats" s = (some (.int 4), s)) ∧
      w₂.client.store.latestValue "custom_seats" = .ok (some (.int 3)) := by
  intro w w₁ w₂
  have hstarted : w₁.client.store.isStarted := by decide +kernel
  have hthree : ("custom_seats", .int 3) ∈ w.client.registry.taken threeSeats := by decide +kernel
  have hfour : ("custom_seats", .int 4) ∈ w₁.client.registry.taken fourSeats := by decide +kernel
  have hok : (setCustomJson .quiet threeSeats w).1 = .ok () := by decide +kernel
  have hfails : (setCustomJson .quiet fourSeats w₁).1 ≠ .ok () := by decide +kernel
  obtain ⟨-, -, -, -, hrecorded, -⟩ :=
    @accepted_members_reach_history _ .quiet w w₁ threeSeats (.ok ()) rfl (Prod.ext hok rfl)
  obtain ⟨-, hread, -, -, -, hforgotten⟩ :=
    @accepted_members_reach_history _ .quiet w₁ w₂ fourSeats _ hstarted rfl
  obtain ⟨stamp, -, hlatest⟩ := hrecorded rfl _ _ hthree
  refine ⟨hfails, hread _ _ hfour, ?_⟩
  rw [hforgotten hfails]
  exact hlatest nofun

end Client

end Targeting
