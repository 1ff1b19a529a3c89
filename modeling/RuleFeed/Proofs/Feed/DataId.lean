import RuleFeed.Proofs.Feed.Start
import RuleFeed.Proofs.Text.Separator

/-!
Which names share a data id. The category can be read off a data id whatever the names in it are.
The names themselves can be read off it only where tenant and namespace have no dash; starts under
different names of that kind never share a document.
-/
namespace RuleFeed

namespace DataId

variable {c c' : Category} {tenant tenant' space space' app app' : String}

theorem write_eq_write_iff :
    write c tenant space app = write c' tenant' space' app' ↔
      c = c' ∧ tenant ++ "-" ++ space ++ "-" ++ app = tenant' ++ "-" ++ space' ++ "-" ++ app' := by
  have grouped (c : Category) (tenant space app : String) :
      write c tenant space app = start c ++ (tenant ++ "-" ++ space ++ "-" ++ app) := by
    simp only [write, String.append_assoc]
  constructor
  · intro same
    obtain rfl := category_eq_of_write_eq same
    rw [grouped, grouped, String.append_right_inj] at same
    exact ⟨rfl, same⟩
  · rintro ⟨rfl, names⟩
    rw [grouped, names, grouped]

theorem write_inj (free : '-' ∉ tenant.toList) (free' : '-' ∉ tenant'.toList)
    (between : '-' ∉ space.toList) (between' : '-' ∉ space'.toList) :
    write c tenant space app = write c' tenant' space' app' ↔
      c = c' ∧ tenant = tenant' ∧ space = space' ∧ app = app' := by
  rw [write_eq_write_iff, append_dash_append_dash_inj free free' between between']

/-- A dash in a tenant or a namespace can stand in either of them. -/
example : write .flow "a-b" "c" "app" = write .flow "a" "b-c" "app" := by decide

end DataId

structure Identity.DashFree (i : Identity) : Prop where
  tenantId : '-' ∉ i.tenantId.toList
  namespaceName : '-' ∉ i.facts.namespaceName.toList

theorem Identity.DashFree.dataId_inj {i j : Identity} (free : i.DashFree) (free' : j.DashFree)
    {app app' : String} {c c' : Category} :
    i.dataId app c = j.dataId app' c' ↔
      c = c' ∧ i.tenantId = j.tenantId ∧ i.facts.namespaceName = j.facts.namespaceName ∧
        app = app' :=
  DataId.write_inj free.tenantId free'.tenantId free.namespaceName free'.namespaceName

namespace FeedSession

theorem mem_targets {s : FeedSession} {dataId : String} {w : Watch} :
    w ∈ s.targets dataId ↔ w ∈ s.watches ∧ w.dataId = dataId := by
  rw [targets, List.mem_filter, beq_iff_eq]

/-- Watches under different names without dashes are never targets of one document. -/
theorem not_mem_targets_of_names {i j : Identity} (free : i.DashFree)
    (free' : j.DashFree) {app app' : String} (differ : i.tenantId ≠ j.tenantId ∨
      i.facts.namespaceName ≠ j.facts.namespaceName ∨ app ≠ app')
    {mine yours : List Watch} (named : mine ⊆ Category.all.map (i.watch app))
    (named' : yours ⊆ Category.all.map (j.watch app')) (session : FeedSession) (dataId : String) :
    ¬ ((∃ w ∈ session.targets dataId, w ∈ mine) ∧ ∃ w ∈ session.targets dataId, w ∈ yours) := by
  rintro ⟨⟨w, target, gained⟩, ⟨w', target', gained'⟩⟩
  obtain ⟨c, -, rfl⟩ := List.mem_map.mp (named gained)
  obtain ⟨c', -, rfl⟩ := List.mem_map.mp (named' gained')
  have same : i.dataId app c = j.dataId app' c' :=
    (mem_targets.mp target).2.trans (mem_targets.mp target').2.symm
  obtain ⟨-, tenants, spaces, apps⟩ := (free.dataId_inj free').mp same
  rcases differ with tenant | space | app
  · exact tenant tenants
  · exact space spaces
  · exact app apps

end FeedSession

namespace FeedSettings

variable {s : FeedSettings} {host app token : String} {instant : Nat} {schedule later : Schedule}
  {state after : FeedState} {result : Except FeedError FeedHandle}

theorem exists_gained_openFeed (opened : s.openFeed host app token state = (result, after)) :
    ∃ gained, after.transport.session.watches = state.transport.session.watches ++ gained ∧
      gained ⊆ Category.all.map (after.identity.watch app) := by
  rw [identity_openFeed opened]
  cases failure : state.transport.failure with
  | some e =>
    rw [openFeed_of_failure failure] at opened
    cases opened
    exact ⟨[], (List.append_nil _).symm, List.nil_subset _⟩
  | none =>
    rw [openFeed_of_none failure] at opened
    cases opened
    refine ⟨_, ?_, FeedSession.granted_subset state.transport.session _⟩
    rw [FeedSession.subscribeAll_session]

/-- A start keeps the watches that it finds, and adds some of those of its own names. -/
theorem exists_gained_start
    (started : s.start host app instant schedule state = (result, after, later)) :
    ∃ gained, after.transport.session.watches = state.transport.session.watches ++ gained ∧
      gained ⊆ Category.all.map (after.identity.watch app) := by
  rcases start_cases started with ⟨fault, -, -, rfl, -⟩ |
    ⟨awaited, -, -, -, ⟨timeout, -, -, rfl⟩ | ⟨token, -, opened⟩⟩
  · exact ⟨[], (List.append_nil _).symm, List.nil_subset _⟩
  · exact ⟨[], (List.append_nil _).symm, List.nil_subset _⟩
  · have gained := exists_gained_openFeed opened
    exact gained

end FeedSettings

/-- Two data ids are equal just if their categories are and their names, joined by dashes; the
document of one category is never that of another. Without dashes in tenants and namespaces all
names are equal then. Hence two starts at any sessions, whose tenants and namespaces are of that
kind and which differ in a name, only add watches to them that no document reaches together. -/
theorem DataId.write_separates_starts :
    (∀ (c c' : Category) (tenant tenant' space space' app app' : String),
      write c tenant space app = write c' tenant' space' app' ↔ c = c' ∧
        tenant ++ "-" ++ space ++ "-" ++ app = tenant' ++ "-" ++ space' ++ "-" ++ app') ∧
    (∀ (c c' : Category) (tenant tenant' space space' app app' : String), c ≠ c' →
      write c tenant space app ≠ write c' tenant' space' app') ∧
    (∀ (c c' : Category) (tenant tenant' space space' app app' : String),
      '-' ∉ tenant.toList → '-' ∉ tenant'.toList → '-' ∉ space.toList → '-' ∉ space'.toList →
      write c tenant space app = write c' tenant' space' app' →
      c = c' ∧ tenant = tenant' ∧ space = space' ∧ app = app') ∧
    ∀ (s s' : FeedSettings) (host host' app app' : String) (instant instant' : Nat)
      (schedule schedule' later later' : Schedule) (state state' after after' : FeedState)
      (result result' : Except FeedError FeedHandle),
      s.start host app instant schedule state = (result, after, later) →
      s'.start host' app' instant' schedule' state' = (result', after', later') →
      after.identity.DashFree → after'.identity.DashFree →
      (after.identity.tenantId ≠ after'.identity.tenantId ∨
        after.identity.facts.namespaceName ≠ after'.identity.facts.namespaceName ∨ app ≠ app') →
      ∃ mine yours,
        after.transport.session.watches = state.transport.session.watches ++ mine ∧
        after'.transport.session.watches = state'.transport.session.watches ++ yours ∧
        ∀ (session : FeedSession) (dataId : String),
          ¬ ((∃ w ∈ session.targets dataId, w ∈ mine) ∧
            ∃ w ∈ session.targets dataId, w ∈ yours) := by
  refine ⟨fun _ _ _ _ _ _ _ _ => write_eq_write_iff, ?_, ?_, ?_⟩
  · intro c c' tenant tenant' space space' app app' differ same
    exact differ (category_eq_of_write_eq same)
  · intro c c' tenant tenant' space space' app app' free free' between between'
    exact (write_inj free free' between between').mp
  · intro s s' host host' app app' instant instant' schedule schedule' later later' state state'
      after after' result result' started started' free free' differ
    obtain ⟨mine, gained, named⟩ := FeedSettings.exists_gained_start started
    obtain ⟨yours, gained', named'⟩ := FeedSettings.exists_gained_start started'
    exact ⟨mine, yours, gained, gained',
      FeedSession.not_mem_targets_of_names free free' differ named named'⟩

/-- Two tenants, one after the other at one session. -/
theorem DataId.write_separates_starts_tenants :
    let identity (tenant : String) : Identity :=
      ((Identity.ofFacts { Facts.blank with namespaceName := "space" } tenant).deliver "token").2
    let watches (tenant : String) : List Watch :=
      Category.all.map (.ofCategory tenant "space" "app")
    let first := FeedSettings.standard.start "host" "app" 0 [] ⟨identity "one", .empty⟩
    let second :=
      FeedSettings.standard.start "host" "app" 0 [] ⟨identity "two", first.2.1.transport⟩
    first.2.1.transport.session.watches = watches "one" ∧
      second.2.1.transport.session.watches = watches "one" ++ watches "two" ∧
      ∀ (session : FeedSession) (dataId : String),
        ¬ ((∃ w ∈ session.targets dataId, w ∈ watches "one") ∧
          ∃ w ∈ session.targets dataId, w ∈ watches "two") := by
  intro identity watches first second
  have one : first.2.1.transport.session.watches = watches "one" := rfl
  have two : second.2.1.transport.session.watches = watches "one" ++ watches "two" := rfl
  obtain ⟨mine, yours, gained, gained', apart⟩ := write_separates_starts.2.2.2 .standard .standard
    "host" "host" "app" "app" 0 0 [] [] first.2.2 second.2.2 ⟨identity "one", .empty⟩
    ⟨identity "two", first.2.1.transport⟩ first.2.1 second.2.1 first.1 second.1 rfl rfl
    ⟨by decide, by decide⟩ ⟨by decide, by decide⟩ (.inl (by decide))
  have sameMine : mine = watches "one" := gained.symm.trans one
  have sameYours : yours = watches "two" := by
    rw [two, one] at gained'
    exact (List.append_cancel_left gained').symm
  rw [sameMine, sameYours] at apart
  exact ⟨one, two, apart⟩

end RuleFeed
