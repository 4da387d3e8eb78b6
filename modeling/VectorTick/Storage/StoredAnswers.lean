import VectorTick.Execution.Permutations
import VectorTick.Storage.AtomicStore

/-! Queries over what a catalog holds, before and after maintenance. -/

set_option autoImplicit false

namespace VectorTick

open Foundation Catalog Query SegmentWriter VectorExecutor

/-- The events that a process reads of the catalog: from the one it has open, or after a recovery.
-/
inductive World.Yields (world : World) : List CanonicalEvent → Prop where
  | opened {catalog : Catalog} {events : List CanonicalEvent} : world.session = some catalog →
      activeEvents world.disk catalog.manifest = .ok events → Yields world events
  | recovered {events : List CanonicalEvent} :
      activeEvents (freshRecovery world.disk).disk
        (freshRecovery world.disk).state.manifest = .ok events →
      Yields world events

/-- Both ways of reading the catalog go through, the open one only where there is one. -/
structure World.Legible (world : World) : Prop where
  opened : ∀ catalog, world.session = some catalog →
    ∃ events, activeEvents world.disk catalog.manifest = .ok events
  recovered : ∃ events,
    activeEvents (freshRecovery world.disk).disk
      (freshRecovery world.disk).state.manifest = .ok events

theorem Serves.legible {world : World} {bag : Multiset CanonicalEvent} (serves : Serves world bag) :
    world.Legible where
  opened := by
    intro catalog found
    obtain ⟨events, read, -⟩ := serves.live catalog found
    exact ⟨events, read⟩
  recovered := by
    obtain ⟨events, read, -⟩ := serves.recovered
    exact ⟨events, read⟩

theorem Serves.settles {world : World} {bag : Multiset CanonicalEvent} (serves : Serves world bag)
    {events : List CanonicalEvent} (yields : world.Yields events) :
    (events : Multiset CanonicalEvent) = bag := by
  cases yields with
  | opened found read =>
    obtain ⟨others, same, counted⟩ := serves.live _ found
    cases same.symm.trans read
    exact counted
  | recovered read =>
    obtain ⟨others, same, counted⟩ := serves.recovered
    cases same.symm.trans read
    exact counted

def CatalogOp.IsCommit : CatalogOp → Prop
  | .commit _ _ _ => True
  | _ => False

theorem offered_maintenance {op : CatalogOp} (maintenance : ¬ op.IsCommit) (world : World) :
    op.offered world = 0 := by
  cases op with
  | commit tempPath entry cut => exact absurd trivial maintenance
  | stage | leave | openCatalog | compact => rfl

/-- Compactions, crashes, exits and recoveries are invisible to queries. However a run of a
catalog goes, between two of its states without a commit in between, a query that takes in all
events has the same answer, from the open catalog as after a recovery. -/
theorem maintenance_invisible {start : World} (blank : start.Blank) {ops : List CatalogOp}
    (proper : Allowed World.step (fun world op => op.Proper world) ops start)
    (few : ops.length < 2 ^ 64)
    {first second : Nat} (order : first ≤ second) (inside : second ≤ ops.length)
    (quiet : ∀ i : Fin ops.length, first ≤ i.val → i.val < second → ¬ ops[i].IsCommit)
    {query : QueryStmt} (whole : Whole query) :
    (start.run (ops.take first)).Legible ∧ (start.run (ops.take second)).Legible ∧
      ∀ before after, (start.run (ops.take first)).Yields before →
        (start.run (ops.take second)).Yields after →
        SameAnswer (executeEvents before query) (executeEvents after query) := by
  obtain ⟨taken, -, held⟩ := catalogLedger.run (blank_holds blank) proper (by omega)
  have serves : ∀ count ≤ ops.length, Serves (start.run (ops.take count))
      (takenTotal World.step (fun world op => op.offered world) ops start taken count) := by
    intro count within
    have holds := held count within
    rw [Nat.zero_add, zero_add] at holds
    exact serves_of_holds holds
  have same :=
    @takenTotal_quiet _ _ _ _ World.step
    (fun world op => CatalogOp.offered world op) ops start taken first
    second order fun i low high => offered_maintenance (quiet i low high) _
  refine ⟨(serves first (by omega)).legible, (serves second inside).legible,
    fun before after yields yields' => ?_⟩
  apply executeEvents_perm whole
  apply Multiset.coe_eq_coe.mp
  rw [(serves first (by omega)).settles yields, (serves second inside).settles yields', same]

theorem maintenance_invisible_quote : ∃ file, SegmentReader.Reads file [quoteEvent] ∧
    ∀ before after, (blankWorld.run ((quoteRun file).take 3)).Yields before →
      (blankWorld.run (quoteRun file)).Yields after →
      SameAnswer (executeEvents before { largeQuery with limit := 0 })
      (executeEvents after { largeQuery with limit := 0 }) := by
  obtain ⟨file, reads⟩ := quote_readable
  obtain ⟨-, -, same⟩ :=
    @maintenance_invisible _ blankWorld_blank _ (quoteRun_proper reads) (by simp [quoteRun]) 3 4
    (by decide) (by simp [quoteRun]) (fun i low high => by
      have last : i.val < 4 := i.isLt
      obtain rfl : i = (3 : Fin 4) := Fin.ext (Nat.le_antisymm (Nat.le_of_lt_succ last) low)
      exact id) { largeQuery with limit := 0 } (.inr rfl)
  exact ⟨file, reads, same⟩

end VectorTick
