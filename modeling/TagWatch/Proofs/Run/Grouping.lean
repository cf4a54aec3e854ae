import Mathlib.Data.List.Induction
import Mathlib.Data.List.Nodup
import TagWatch.Run.Context

/-!
# Groups are a stable partition

**Theorem (`group_stable_partition`).** The groups of a list of containers hold every container
exactly once. Two containers share a group if and only if they ask the same question. Groups
stand in the order of their first members and members in the order of the list, and the counters
of the run add up.

Everything follows from a closed form (`groupContainers_eq`): the keys of the groups are the first
occurrences of keys in the list, and the members of each are the containers of its key. The
induction is from the end of the list, because the groups are built by going through it: one
more container either joins the group of its key, which stays where it is, or starts the last one.
-/

namespace TagWatch

/-! ## First occurrences -/

section FirstOccurrences

variable {α : Type} [DecidableEq α]

theorem eraseDups_concat (l : List α) (a : α) :
    (l ++ [a]).eraseDups = if a ∈ l then l.eraseDups else l.eraseDups ++ [a] := by
  have hone : [a].eraseDups = [a] := rfl
  rw [List.eraseDups_append]
  by_cases h : a ∈ l <;> simp [List.removeAll, h, hone]

/-- First occurrences stand in their order. -/
theorem pairwise_idxOf_eraseDups (l : List α) :
    l.eraseDups.Pairwise fun a b => l.idxOf a < l.idxOf b := by
  induction l using List.reverseRecOn with
  | nil => exact .nil
  | append_singleton l a ih =>
    have hold : l.eraseDups.Pairwise fun b c => (l ++ [a]).idxOf b < (l ++ [a]).idxOf c := by
      refine ih.imp_of_mem fun hb hc hlt => ?_
      rwa [List.idxOf_append, if_pos (List.mem_eraseDups.mp hb), List.idxOf_append,
        if_pos (List.mem_eraseDups.mp hc)]
    rw [eraseDups_concat]
    split
    · exact hold
    · next hnew =>
      refine List.pairwise_append.mpr ⟨hold, List.pairwise_singleton _ a, ?_⟩
      intro b hb c hc
      obtain rfl := List.mem_singleton.mp hc
      have hb := List.mem_eraseDups.mp hb
      rw [List.idxOf_append, if_pos hb, List.idxOf_append, if_neg hnew]
      exact Nat.lt_add_left _ (List.idxOf_lt_length_of_mem hb)

theorem nodup_eraseDups (l : List α) : l.eraseDups.Nodup := by
  refine (pairwise_idxOf_eraseDups l).imp ?_
  rintro a b hlt rfl
  exact Nat.lt_irrefl _ hlt

theorem length_eraseDups_le (l : List α) : l.eraseDups.length ≤ l.length := by
  induction l using List.reverseRecOn with
  | nil => exact Nat.le_refl _
  | append_singleton l a ih =>
    rw [eraseDups_concat]
    split <;> simp <;> omega

end FirstOccurrences

/-! ## Tables with computed values -/

namespace Table

variable {κ α : Type}

/-- The table with given keys, where each value is computed from its key. -/
def tabulate (keys : List κ) (f : κ → α) : Table κ α := ⟨keys.map fun k => (k, f k)⟩

theorem keys_tabulate (keys : List κ) (f : κ → α) : (tabulate keys f).keys = keys := by
  simp [tabulate, Table.keys, Function.comp_def]

theorem size_tabulate (keys : List κ) (f : κ → α) : (tabulate keys f).size = keys.length :=
  List.length_map _

theorem mem_entries_tabulate {keys : List κ} {f : κ → α} {e : κ × α} :
    e ∈ (tabulate keys f).entries ↔ e.1 ∈ keys ∧ e.2 = f e.1 := by
  constructor
  · intro h
    obtain ⟨k, hk, rfl⟩ := List.mem_map.mp h
    exact ⟨hk, rfl⟩
  · rintro ⟨hk, he⟩
    exact List.mem_map.mpr ⟨e.1, hk, Prod.ext rfl he.symm⟩

variable [DecidableEq κ]

theorem get?_tabulate (keys : List κ) (f : κ → α) (k : κ) :
    (tabulate keys f).get? k = if k ∈ keys then some (f k) else none := by
  show find k (keys.map fun k => (k, f k)) = _
  induction keys with
  | nil => rfl
  | cons k' keys ih =>
    by_cases h : k' = k
    · simp [find, h]
    · simp [find, h, Ne.symm h, ih]

/-- Writing a key changes what is computed for it, and adds it at the end if it is new. -/
theorem set_tabulate {keys : List κ} (hn : keys.Nodup) (f : κ → α) (k : κ) (a : α) :
    (tabulate keys f).set k a =
      tabulate (if k ∈ keys then keys else keys ++ [k]) (Function.update f k a) := by
  refine congrArg Table.mk ?_
  show put k a (keys.map fun k => (k, f k)) = _
  induction keys with
  | nil => simp [put]
  | cons k' keys ih =>
    obtain ⟨hk', hn⟩ := List.nodup_cons.mp hn
    by_cases h : k' = k
    · subst h
      have hrest : keys.map (fun k => (k, Function.update f k' a k)) =
          keys.map fun k => (k, f k) := by
        refine List.map_congr_left fun k hk => ?_
        rw [Function.update_of_ne (ne_of_mem_of_not_mem hk hk')]
      simp [put, hrest]
    · simp only [List.map_cons, put, if_neg h, ih hn, List.mem_cons, Ne.symm h, false_or]
      split <;> simp [Function.update_of_ne h]

end Table

/-! ## The closed form -/

variable {containers : List Container} {lookup : PrereleaseLookup} {c c' : Container} {k : Key}

/-- The containers that have a given key, in order. -/
def askers (lookup : PrereleaseLookup) (containers : List Container) (k : Key) :
    List Container :=
  containers.filter fun c => c.keyIn lookup = k

theorem mem_askers : c ∈ askers lookup containers k ↔ c ∈ containers ∧ c.keyIn lookup = k := by
  simp [askers]

/-- One more container is one more asker for its key. -/
theorem askers_concat (lookup : PrereleaseLookup) (containers : List Container) (c : Container) :
    askers lookup (containers ++ [c]) = Function.update (askers lookup containers)
      (c.keyIn lookup) (askers lookup containers (c.keyIn lookup) ++ [c]) := by
  funext k
  by_cases h : k = c.keyIn lookup
  · simp [askers, h]
  · simp [askers, Function.update_of_ne h, Ne.symm h]

/-- The groups are those of the first occurrences of keys. -/
theorem groupContainers_eq (containers : List Container) (lookup : PrereleaseLookup) :
    groupContainers containers lookup =
      .tabulate (containers.map (·.keyIn lookup)).eraseDups (askers lookup containers) := by
  induction containers using List.reverseRecOn with
  | nil => rfl
  | append_singleton containers c ih =>
    have hgroups : groupContainers (containers ++ [c]) lookup =
        (groupContainers containers lookup).alter (c.keyIn lookup) [] (· ++ [c]) := by
      simp [groupContainers]
    -- without a group so far, no container before has the key
    have hsofar : (groupContainers containers lookup).getD (c.keyIn lookup) [] =
        askers lookup containers (c.keyIn lookup) := by
      rw [ih, Table.getD, Table.get?_tabulate]
      split
      · rfl
      · next hnew =>
        symm
        apply List.filter_eq_nil_iff.mpr
        intro d hd
        simpa using fun hkey => hnew (List.mem_eraseDups.mpr (List.mem_map.mpr ⟨d, hd, hkey⟩))
    rw [hgroups, Table.alter, hsofar, ih, Table.set_tabulate (nodup_eraseDups _), List.map_append,
      List.map_singleton, eraseDups_concat, askers_concat]
    simp only [List.mem_eraseDups]

/-! ## The partition -/

/-- Two containers ask the same question: the name of the registry counts in its canonical form. -/
def Container.AsksAs (lookup : PrereleaseLookup) (c c' : Container) : Prop :=
  Registry.canonical c.registry = Registry.canonical c'.registry ∧ c.image = c'.image ∧
    c.tag = c'.tag ∧ c.scope = c'.scope ∧ lookup.getD c.id false = lookup.getD c'.id false

theorem keyIn_eq_iff : c.keyIn lookup = c'.keyIn lookup ↔ c.AsksAs lookup c' := by
  simp only [Container.keyIn, Container.key, Key.make, Key.mk.injEq, Container.AsksAs]

/-- The groups of different keys that cover all containers hold each of them once. -/
theorem flatMap_askers_perm {keys : List Key} (hn : keys.Nodup)
    (h : ∀ c ∈ containers, c.keyIn lookup ∈ keys) :
    (keys.flatMap (askers lookup containers)).Perm containers := by
  induction keys generalizing containers with
  | nil =>
    have hempty : containers = [] :=
      List.eq_nil_iff_forall_not_mem.mpr fun c hc => List.not_mem_nil (h c hc)
    rw [hempty]
    exact .refl _
  | cons k keys ih =>
    obtain ⟨hk, hn⟩ := List.nodup_cons.mp hn
    let others := containers.filter fun c => !decide (c.keyIn lookup = k)
    have hcover : ∀ c ∈ others, c.keyIn lookup ∈ keys := by
      intro c hc
      obtain ⟨hc, hne⟩ := List.mem_filter.mp hc
      exact List.mem_of_ne_of_mem (by simpa using hne) (h c hc)
    have hsame : keys.flatMap (askers lookup containers) =
        keys.flatMap (askers lookup others) := by
      refine List.flatMap_congr fun k' hk' => ?_
      have hne : k' ≠ k := ne_of_mem_of_not_mem hk' hk
      show containers.filter _ = others.filter _
      rw [List.filter_filter]
      refine List.filter_congr fun c _ => ?_
      by_cases hc : c.keyIn lookup = k' <;> simp [hc, hne]
    rw [List.flatMap_cons, hsame]
    exact ((ih hn hcover).append_left _).trans (List.filter_append_perm _ _)

/-- The first container of a key stands where the key occurs first. -/
theorem findIdx_askers {containers' : List Container} (hsub : ∀ c ∈ containers, c ∈ containers') :
    (containers.findIdx fun c => c ∈ askers lookup containers' k) =
      (containers.map (·.keyIn lookup)).idxOf k := by
  induction containers with
  | nil => rfl
  | cons c containers ih =>
    have hc : c ∈ askers lookup containers' k ↔ c.keyIn lookup = k := by
      rw [mem_askers, and_iff_right (hsub c List.mem_cons_self)]
    have hrest := ih fun d hd => hsub d (List.mem_cons_of_mem _ hd)
    by_cases h : c.keyIn lookup = k
    · simp [List.findIdx_cons, hc, h]
    · simp [List.findIdx_cons, hc, h, hrest]

/-- The groups split a list of containers by their questions, and keep its order. -/
structure Groups.Partition (groups : Groups) (containers : List Container)
    (lookup : PrereleaseLookup) : Prop where
  /-- Every container stands in the groups as often as in the list. -/
  perm : (groups.entries.flatMap (·.2)).Perm containers
  nonempty : ∀ g ∈ groups.entries, g.2 ≠ []
  nodup : groups.keys.Nodup
  /-- The members of a group are all containers of its key, in the order of the list. -/
  members : ∀ g ∈ groups.entries, g.2 = containers.filter fun c => c.keyIn lookup = g.1
  together : ∀ c ∈ containers, ∀ c' ∈ containers,
    (∃ g ∈ groups.entries, c ∈ g.2 ∧ c' ∈ g.2) ↔ c.AsksAs lookup c'
  /-- Groups stand in the order of their first members. -/
  order : groups.entries.Pairwise fun g h =>
    (containers.findIdx fun c => c ∈ g.2) < containers.findIdx fun c => c ∈ h.2

theorem groupContainers_partition (containers : List Container) (lookup : PrereleaseLookup) :
    (groupContainers containers lookup).Partition containers lookup := by
  have hmem {k : Key} : k ∈ (containers.map (·.keyIn lookup)).eraseDups ↔
      ∃ c ∈ containers, c.keyIn lookup = k := by
    rw [List.mem_eraseDups, List.mem_map]
  rw [groupContainers_eq]
  constructor
  case perm =>
    show (List.flatMap _ (List.map _ _)).Perm _
    rw [List.flatMap_map]
    exact flatMap_askers_perm (nodup_eraseDups _) fun c hc => hmem.mpr ⟨c, hc, rfl⟩
  case nonempty =>
    rintro g hg hempty
    obtain ⟨hk, hg⟩ := Table.mem_entries_tabulate.mp hg
    obtain ⟨c, hc, hkey⟩ := hmem.mp hk
    have hc : c ∈ g.2 := by
      rw [hg]
      exact mem_askers.mpr ⟨hc, hkey⟩
    rw [hempty] at hc
    cases hc
  case nodup =>
    rw [Table.keys_tabulate]
    exact nodup_eraseDups _
  case members =>
    intro g hg
    exact (Table.mem_entries_tabulate.mp hg).2
  case together =>
    intro c hc c' hc'
    rw [← keyIn_eq_iff]
    constructor
    · rintro ⟨g, hg, hcg, hcg'⟩
      rw [(Table.mem_entries_tabulate.mp hg).2, mem_askers] at hcg hcg'
      exact hcg.2.trans hcg'.2.symm
    · intro hkey
      refine ⟨(c.keyIn lookup, askers lookup containers (c.keyIn lookup)),
        Table.mem_entries_tabulate.mpr ⟨hmem.mpr ⟨c, hc, rfl⟩, rfl⟩, ?_, ?_⟩
      · exact mem_askers.mpr ⟨hc, rfl⟩
      · exact mem_askers.mpr ⟨hc', hkey.symm⟩
  case order =>
    refine List.pairwise_map.mpr ((pairwise_idxOf_eraseDups _).imp fun hlt => ?_)
    rwa [findIdx_askers fun _ => id, findIdx_askers fun _ => id]

/-- There are no more groups than containers. -/
theorem size_groupContainers_le (containers : List Container) (lookup : PrereleaseLookup) :
    (groupContainers containers lookup).size ≤ containers.length := by
  rw [groupContainers_eq, Table.size_tabulate]
  simpa using length_eraseDups_le (containers.map (·.keyIn lookup))

/-- **Groups are a stable partition.** The groups hold every container as often as it was given
and none is empty. Two containers share a group if and only if they ask the same question. Groups
stand in the order of their first members, and members in the order in which they were given. The
run counts one image for each group, and every other container as one that needs no fetch of its
own. -/
theorem group_stable_partition (ctx : Context) (containers : List Container)
    (lookup : PrereleaseLookup) :
    let o := ctx.group containers lookup
    o.1.Partition containers lookup ∧ o.1.size ≤ containers.length ∧
      o.2.metrics.uniqueImages = o.1.size ∧ o.2.metrics.totalContainers = containers.length ∧
      o.2.metrics.uniqueImages + o.2.metrics.deduplicatedContainers =
        o.2.metrics.totalContainers ∧
      o.2.cache = ctx.cache := by
  intro o
  have hle : o.1.size ≤ containers.length := size_groupContainers_le containers lookup
  exact ⟨groupContainers_partition containers lookup, hle, rfl, rfl, Nat.add_sub_of_le hle, rfl⟩

/-- Two spellings of a registry share a group, and so do two containers with one id. -/
example :
    let container (id registry tag : String) : Container :=
      ⟨id, id, registry, "library/redis", tag, .minor, none, none⟩
    (groupContainers [container "a" "docker.io" "7.2", container "b" "ghcr.io" "7.2",
      container "c" "registry-1.docker.io" "7.2", container "b" "ghcr.io" "7.2",
      container "d" "ghcr.io" "7.2"] ⟨[("b", true)]⟩).entries.map (·.2.map (·.id)) =
      [["a", "c"], ["b", "b"], ["d"]] := by
  decide +kernel

end TagWatch
