/-
**The physical device of the renderer and of the render interface.**

Both loops over the devices keep the first one whatever it can do, and replace it by each later discrete GPU that
meets the requirements. What the loop ends with is used without a look at it.

* `deviceLoop_later` — the devices behind the first: the last one that replaced, or none.
* **`device_selection_iff`** — when the loops end with a suitable device, discrete if there is such a one.

The presentation support of a queue family and the suitability of a device are answers of callbacks. The two loops
are one definition: the renderer's callback cannot fail, and that of the render interface is not called for a
headless one.
-/

import Mathlib.Tactic.Common

namespace Vaudou

section Source

/-- `VkPhysicalDeviceType`. -/
inductive VkPhysicalDeviceType where
  | other
  | integratedGpu
  | discreteGpu
  | virtualGpu
  | cpu
deriving DecidableEq, Repr

/-- What the device tells about itself; a queue family is its `queueFlags`. -/
structure PhysicalDevice where
  extensions : List String
  deviceType : VkPhysicalDeviceType
  apiVersion : UInt32
  queueFamilies : List Nat
  bufferDeviceAddress : Bool
  descriptorIndexing : Bool
  synchronization2 : Bool
  dynamicRendering : Bool
deriving DecidableEq, Repr

/-- `VK_KHR_SWAPCHAIN_EXTENSION_NAME`. -/
def khrSwapchainExtensionName : String := "VK_KHR_swapchain"

/-- `VK_QUEUE_GRAPHICS_BIT`. -/
def queueGraphicsBit : Nat := 1

/-- `VK_VERSION_MAJOR`. -/
def vkVersionMajor (version : UInt32) : Nat := (version >>> 22).toNat

/-- `VK_VERSION_MINOR`. -/
def vkVersionMinor (version : UInt32) : Nat := ((version >>> 12) &&& 0x3FF).toNat

/-- `min_major_version`. -/
def minMajorVersion : Nat := 1

/-- `min_minor_version`. -/
def minMinorVersion : Nat := 3

/-- `best_device` and what is kept with it. -/
structure BestDevice where
  best_device : Int
  graphics_queue_family : Nat
  present_queue_family : Nat
  is_gpu : Bool
deriving DecidableEq, Repr

variable {E : Type} (headless : Bool)

/-- The loop over the queue families from family `j` on, with `graphics_queues` and `present_queues` so far;
`answer` is what the callback says of a family. -/
def familyLoop (answer : Nat → Except E Bool) : Nat → List Nat → List Nat → List Nat →
    Except E (List Nat × List Nat)
  | _, [], graphics_queues, present_queues => .ok (graphics_queues, present_queues)
  | j, queueFlags :: rest, graphics_queues, present_queues =>
    let graphics := if queueFlags &&& queueGraphicsBit ≠ 0 then graphics_queues ++ [j] else graphics_queues
    if headless then familyLoop answer (j + 1) rest graphics present_queues
    else match answer j with
      | .error result => .error result
      | .ok queue_surface_support =>
        familyLoop answer (j + 1) rest graphics
          (if queue_surface_support then present_queues ++ [j] else present_queues)

/-- `physical_device_satisfies_requirements`. -/
def satisfiesRequirements (d : PhysicalDevice) (graphics_queues present_queues : List Nat) : Bool :=
  d.extensions.any (· == khrSwapchainExtensionName) && decide (0 < graphics_queues.length) &&
    (headless || decide (0 < present_queues.length)) && d.bufferDeviceAddress && d.descriptorIndexing &&
    d.synchronization2 && d.dynamicRendering && decide (minMajorVersion ≤ vkVersionMajor d.apiVersion) &&
    decide (minMinorVersion ≤ vkVersionMinor d.apiVersion)

/-- Device `i` with its queue families. -/
def candidate (i : Nat) (d : PhysicalDevice) (graphics_queues present_queues : List Nat) : BestDevice :=
  let graphics := graphics_queues[0]?.getD 0
  let present := present_queues[0]?.getD 0
  ⟨i, graphics, if graphics = present ∧ 1 < present_queues.length then present_queues[1]?.getD 0 else present,
    decide (d.deviceType = .discreteGpu)⟩

/-- The loop over the devices from device `i` on. -/
def deviceLoop (answer : Nat → Nat → Except E Bool) : Nat → List PhysicalDevice → BestDevice →
    Except E BestDevice
  | _, [], best => .ok best
  | i, d :: rest, best =>
    match familyLoop headless (answer i) 0 d.queueFamilies [] [] with
    | .error result => .error result
    | .ok (graphics_queues, present_queues) =>
      let q := candidate i d graphics_queues present_queues
      deviceLoop answer (i + 1) rest
        (if best.best_device = -1 then q
        else if q.is_gpu && satisfiesRequirements headless d graphics_queues present_queues then q
        else best)

/-- What the loops start with. -/
def noDevice : BestDevice := ⟨-1, 0, 0, false⟩

/-- The loop of `vd_renderer_init`; `support` is what `get_physical_device_presentation_support` says of a family
of a device. -/
def rendererSelection (support : Nat → Nat → Bool) (physical_devices : List PhysicalDevice) :
    Except Empty BestDevice :=
  deviceLoop false (fun i j => .ok (support i j)) 0 physical_devices noDevice

/-- `RHResult`. -/
inductive RHResult where
  | success
  | failure
deriving DecidableEq, Repr

/-- What `is_physical_device_suitable` answers; a result other than success is returned at once. -/
def suitableAnswer (answer : RHResult × Bool) : Except RHResult Bool :=
  if answer.1 ≠ .success then .error answer.1 else .ok answer.2

/-- The loop of `vd_rhi_vulkan_init`; `suitable` is what `is_physical_device_suitable` answers for a device in
the turn of a family. -/
def rhiSelection (suitable : Nat → Nat → RHResult × Bool) (physical_devices : List PhysicalDevice) :
    Except RHResult BestDevice :=
  deviceLoop headless (fun i j => suitableAnswer (suitable i j)) 0 physical_devices noDevice

end Source

section Requirements

variable {E : Type} (headless : Bool) (answer : Nat → Except E Bool)

/-- Version 1.3 or later. -/
def AtLeastMinVersion (version : UInt32) : Prop :=
  minMajorVersion < vkVersionMajor version ∨
    vkVersionMajor version = minMajorVersion ∧ minMinorVersion ≤ vkVersionMinor version

/-- The device meets the stated requirements; a headless render interface needs no presentation. -/
structure PhysicalDevice.Suitable (d : PhysicalDevice) : Prop where
  swapchain : khrSwapchainExtensionName ∈ d.extensions
  graphics : ∃ j queueFlags : Nat, d.queueFamilies[j]? = some queueFlags ∧ queueFlags &&& queueGraphicsBit ≠ 0
  present : headless = false → ∃ j < d.queueFamilies.length, answer j = .ok true
  buffer_device_address : d.bufferDeviceAddress = true
  descriptor_indexing : d.descriptorIndexing = true
  synchronization : d.synchronization2 = true
  dynamic_rendering : d.dynamicRendering = true
  version : AtLeastMinVersion d.apiVersion

/-- The queue families that were kept are a graphics family and one with presentation of the device. -/
structure BestDevice.Records (best : BestDevice) (d : PhysicalDevice) : Prop where
  graphics : ∃ queueFlags : Nat, d.queueFamilies[best.graphics_queue_family]? = some queueFlags ∧
    queueFlags &&& queueGraphicsBit ≠ 0
  present : headless = false →
    best.present_queue_family < d.queueFamilies.length ∧ answer best.present_queue_family = .ok true

/-- The device that is used is on the list and suitable, a discrete GPU if there is a suitable one, and the
queue families are its own. There is no such device if none is suitable: whatever is used then is not. -/
def BestDevice.Picks (answer : Nat → Nat → Except E Bool) (devices : List PhysicalDevice) (best : BestDevice) :
    Prop :=
  ∃ (i : Nat) (d : PhysicalDevice), best.best_device = i ∧ devices[i]? = some d ∧ d.Suitable headless (answer i) ∧
    best.Records headless (answer i) d ∧
    ((∃ (k : Nat) (e : PhysicalDevice), devices[k]? = some e ∧ e.Suitable headless (answer k) ∧
      e.deviceType = .discreteGpu) → d.deviceType = .discreteGpu)

/-- The loop ends with a device that it may use, or hands on the failure of a callback. -/
def SelectsSuitable (answer : Nat → Nat → Except E Bool) (devices : List PhysicalDevice) :
    Except E BestDevice → Prop
  | .ok best => best.Picks headless answer devices
  | .error result => ∃ i j, answer i j = .error result

/-- A callback fails for a family of a device. -/
def CallFails (answer : Nat → Nat → Except E Bool) (devices : List PhysicalDevice) : Prop :=
  headless = false ∧ ∃ (i : Nat) (d : PhysicalDevice) (j : Nat) (result : E), devices[i]? = some d ∧
    j < d.queueFamilies.length ∧ answer i j = .error result

/-- A discrete GPU behind the first device is suitable, with a minor version of 3 or more; or the first device is
suitable, and discrete if any suitable device is. -/
def LaterOrFirst (answer : Nat → Nat → Except E Bool) (devices : List PhysicalDevice) : Prop :=
  (∃ (i : Nat) (d : PhysicalDevice), devices[i + 1]? = some d ∧ d.deviceType = .discreteGpu ∧
    d.Suitable headless (answer (i + 1)) ∧ minMinorVersion ≤ vkVersionMinor d.apiVersion) ∨
  ∃ d, devices[0]? = some d ∧ d.Suitable headless (answer 0) ∧
    (d.deviceType = .discreteGpu ∨ ∀ (k : Nat) (e : PhysicalDevice), devices[k]? = some e →
      e.Suitable headless (answer k) → e.deviceType ≠ .discreteGpu)

end Requirements

section Families

variable {E : Type} {headless : Bool} {answer : Nat → Except E Bool} {j : Nat} {result : E}
  {graphics_queues present_queues graphics' present' families : List Nat}

/-- The families from `j` on that have a property. -/
def familiesWith (keep : Nat → Nat → Bool) : Nat → List Nat → List Nat
  | _, [] => []
  | j, queueFlags :: rest => (if keep j queueFlags then [j] else []) ++ familiesWith keep (j + 1) rest

/-- The family can do graphics. -/
def isGraphics (queueFlags : Nat) : Bool := decide (queueFlags &&& queueGraphicsBit ≠ 0)

/-- The callback says that the family can present. -/
def presents (answer : Nat → Except E Bool) (j : Nat) : Bool :=
  match answer j with
  | .ok queue_surface_support => queue_surface_support
  | .error _ => false

theorem presents_iff : presents answer j = true ↔ answer j = .ok true := by
  rw [presents]
  cases answer j with
  | error result => exact iff_of_false Bool.false_ne_true nofun
  | ok support => exact ⟨fun same => same ▸ rfl, fun same => Except.ok.inj same⟩

theorem mem_familiesWith {keep : Nat → Nat → Bool} {k : Nat} :
    k ∈ familiesWith keep j families ↔
      ∃ x queueFlags : Nat, families[x]? = some queueFlags ∧ keep k queueFlags = true ∧ k = j + x := by
  induction families generalizing j with
  | nil => exact iff_of_false List.not_mem_nil fun ⟨_, _, none_, _⟩ => by simp at none_
  | cons queueFlags rest ih =>
    rw [familiesWith, List.mem_append, ih]
    constructor
    · rintro (here | ⟨x, flags, there, kept, rfl⟩)
      · split at here
        · next kept =>
          obtain rfl := List.mem_singleton.mp here
          exact ⟨0, queueFlags, rfl, kept, rfl⟩
        · exact absurd here List.not_mem_nil
      · exact ⟨x + 1, flags, there, kept, by omega⟩
    · rintro ⟨x, flags, there, kept, rfl⟩
      cases x with
      | zero =>
        obtain rfl := Option.some.inj there
        rw [Nat.add_zero] at kept ⊢
        exact Or.inl (by rw [if_pos kept]; exact List.mem_singleton_self _)
      | succ x => exact Or.inr ⟨x, flags, there, kept, by omega⟩

/-- What the loop over the families collects, if no callback fails. -/
theorem familyLoop_ok (ran : familyLoop headless answer j families graphics_queues present_queues =
    .ok (graphics', present')) :
    graphics' = graphics_queues ++ familiesWith (fun _ queueFlags => isGraphics queueFlags) j families ∧
      present' = present_queues ++
        (if headless then [] else familiesWith (fun k _ => presents answer k) j families) ∧
      (headless = false → ∀ x < families.length, ∃ support, answer (j + x) = .ok support) := by
  induction families generalizing j graphics_queues present_queues with
  | nil =>
    cases ran
    refine ⟨(List.append_nil _).symm, ?_, fun _ x inside => absurd inside (Nat.not_lt_zero x)⟩
    rw [familiesWith, ite_self, List.append_nil]
  | cons queueFlags rest ih =>
    rw [familyLoop] at ran
    have graphics : ∀ later : List Nat,
        (if queueFlags &&& queueGraphicsBit ≠ 0 then graphics_queues ++ [j] else graphics_queues) ++ later =
          graphics_queues ++ ((if isGraphics queueFlags then [j] else []) ++ later) := by
      intro later
      by_cases bit : queueFlags &&& queueGraphicsBit ≠ 0
      · rw [if_pos bit, isGraphics, if_pos (decide_eq_true bit), List.append_assoc]
      · rw [if_neg bit, isGraphics, if_neg (by simpa using bit), List.nil_append]
    cases headless with
    | true =>
      obtain ⟨first, second, -⟩ := ih ran
      exact ⟨by rw [first, graphics, familiesWith], second, nofun⟩
    | false =>
      rw [if_neg Bool.false_ne_true] at ran
      cases said : answer j with
      | error result =>
        rw [said] at ran
        cases ran
      | ok support =>
        rw [said] at ran
        obtain ⟨first, second, answered⟩ := ih ran
        refine ⟨by rw [first, graphics, familiesWith], ?_, fun here x inside => ?_⟩
        · rw [second, if_neg Bool.false_ne_true, if_neg Bool.false_ne_true, familiesWith, presents, said]
          cases support with
          | true => exact List.append_assoc _ _ _
          | false => rfl
        · cases x with
          | zero => exact ⟨support, said⟩
          | succ x =>
            rw [← Nat.add_assoc, Nat.add_right_comm]
            exact answered here x (Nat.lt_of_succ_lt_succ inside)

/-- The loop over the families ends early only with the failure of a callback. -/
theorem familyLoop_error (ran : familyLoop headless answer j families graphics_queues present_queues =
    .error result) : headless = false ∧ ∃ x < families.length, answer (j + x) = .error result := by
  induction families generalizing j graphics_queues present_queues with
  | nil => cases ran
  | cons queueFlags rest ih =>
    rw [familyLoop] at ran
    have later : (headless = false ∧ ∃ x < rest.length, answer (j + 1 + x) = .error result) →
        headless = false ∧ ∃ x < (queueFlags :: rest).length, answer (j + x) = .error result := by
      rintro ⟨called, x, inside, failed⟩
      refine ⟨called, x + 1, Nat.succ_lt_succ inside, ?_⟩
      rw [← failed, ← Nat.add_assoc, Nat.add_right_comm]
    cases headless with
    | true => exact later (ih ran)
    | false =>
      rw [if_neg Bool.false_ne_true] at ran
      cases said : answer j with
      | error failure =>
        rw [said] at ran
        cases ran
        exact ⟨rfl, 0, Nat.succ_pos _, said⟩
      | ok support =>
        rw [said] at ran
        exact later (ih ran)

end Families

section Devices

variable {E : Type} {headless : Bool} {d : PhysicalDevice} {graphics_queues present_queues : List Nat} {i : Nat}

/-- `present_queues` behind the loop. -/
def presentQueues (headless : Bool) (answer : Nat → Except E Bool) (families : List Nat) : List Nat :=
  if headless then [] else familiesWith (fun k _ => presents answer k) 0 families

/-- `graphics_queues` behind the loop. -/
def graphicsQueues (families : List Nat) : List Nat :=
  familiesWith (fun _ queueFlags => isGraphics queueFlags) 0 families

section One

variable {answer : Nat → Except E Bool} {k : Nat}

theorem mem_graphicsQueues : k ∈ graphicsQueues d.queueFamilies ↔
    ∃ queueFlags : Nat, d.queueFamilies[k]? = some queueFlags ∧ queueFlags &&& queueGraphicsBit ≠ 0 := by
  rw [graphicsQueues, mem_familiesWith]
  constructor
  · rintro ⟨x, queueFlags, here, kept, same⟩
    rw [Nat.zero_add] at same
    exact ⟨queueFlags, same ▸ here, of_decide_eq_true kept⟩
  · rintro ⟨queueFlags, here, bit⟩
    exact ⟨k, queueFlags, here, decide_eq_true bit, (Nat.zero_add k).symm⟩

theorem mem_presentQueues : k ∈ presentQueues headless answer d.queueFamilies ↔
    headless = false ∧ k < d.queueFamilies.length ∧ answer k = .ok true := by
  rw [presentQueues]
  cases headless with
  | true => exact iff_of_false List.not_mem_nil nofun
  | false =>
    rw [if_neg Bool.false_ne_true, mem_familiesWith]
    constructor
    · rintro ⟨x, queueFlags, here, kept, same⟩
      rw [Nat.zero_add] at same
      exact ⟨rfl, same ▸ (List.getElem?_eq_some_iff.mp here).1, presents_iff.mp kept⟩
    · rintro ⟨-, inside, said⟩
      exact ⟨k, _, List.getElem?_eq_getElem inside, presents_iff.mpr said, (Nat.zero_add k).symm⟩

/-- The first entry of a list, and the second one if there is one, are entries. -/
theorem getD_mem {items : List Nat} {x : Nat} (inside : x < items.length) : items[x]?.getD 0 ∈ items := by
  rw [List.getElem?_eq_getElem inside, Option.getD_some]
  exact List.getElem_mem inside

/-- What is kept of a device are families of it. -/
theorem candidate_records (suitable : d.Suitable headless answer) :
    (candidate i d (graphicsQueues d.queueFamilies) (presentQueues headless answer d.queueFamilies)).Records
      headless answer d := by
  refine ⟨?_, fun called => ?_⟩
  · obtain ⟨j, here⟩ := suitable.graphics
    have some_ : 0 < (graphicsQueues d.queueFamilies).length :=
      List.length_pos_of_mem (mem_graphicsQueues.mpr here)
    exact mem_graphicsQueues.mp (getD_mem some_)
  · obtain ⟨j, inside, said⟩ := suitable.present called
    have some_ : 0 < (presentQueues headless answer d.queueFamilies).length :=
      List.length_pos_of_mem (mem_presentQueues.mpr ⟨called, inside, said⟩)
    have kept : (candidate i d (graphicsQueues d.queueFamilies)
        (presentQueues headless answer d.queueFamilies)).present_queue_family ∈
          presentQueues headless answer d.queueFamilies := by
      rw [candidate]
      dsimp only
      split
      · next both => exact getD_mem both.2
      · exact getD_mem some_
    exact (mem_presentQueues.mp kept).2

theorem version_iff {version : UInt32} :
    minMajorVersion ≤ vkVersionMajor version ∧ minMinorVersion ≤ vkVersionMinor version ↔
      AtLeastMinVersion version ∧ minMinorVersion ≤ vkVersionMinor version := by
  rw [AtLeastMinVersion]
  omega

/-- The code's test of a device: it is suitable, and its minor version is 3 or more even where the major one is
above 1. -/
theorem satisfies_iff : satisfiesRequirements headless d (graphicsQueues d.queueFamilies)
      (presentQueues headless answer d.queueFamilies) = true ↔
    d.Suitable headless answer ∧ minMinorVersion ≤ vkVersionMinor d.apiVersion := by
  have graphics : 0 < (graphicsQueues d.queueFamilies).length ↔ ∃ j queueFlags : Nat,
      d.queueFamilies[j]? = some queueFlags ∧ queueFlags &&& queueGraphicsBit ≠ 0 := by
    rw [List.length_pos_iff_exists_mem]
    exact exists_congr fun j => mem_graphicsQueues
  have present : headless = true ∨ 0 < (presentQueues headless answer d.queueFamilies).length ↔
      (headless = false → ∃ j < d.queueFamilies.length, answer j = .ok true) := by
    rw [List.length_pos_iff_exists_mem]
    cases headless with
    | true => exact iff_of_true (Or.inl rfl) nofun
    | false =>
      rw [or_iff_right Bool.false_ne_true]
      refine (exists_congr fun j => mem_presentQueues).trans ?_
      exact ⟨fun ⟨j, _, found⟩ _ => ⟨j, found⟩, fun found => (found rfl).imp fun j found => ⟨rfl, found⟩⟩
  have swapchain : d.extensions.any (· == khrSwapchainExtensionName) = true ↔
      khrSwapchainExtensionName ∈ d.extensions := by
    rw [List.any_eq_true]
    exact ⟨fun ⟨_, member, same⟩ => eq_of_beq same ▸ member, fun member => ⟨_, member, beq_self_eq_true _⟩⟩
  rw [satisfiesRequirements]
  simp only [Bool.and_eq_true, Bool.or_eq_true, decide_eq_true_eq, and_assoc]
  rw [swapchain, graphics, present, version_iff]
  constructor
  · rintro ⟨swapchain, graphics, present, address, indexing, synchronization, rendering, version, minor⟩
    exact ⟨⟨swapchain, graphics, present, address, indexing, synchronization, rendering, version⟩, minor⟩
  · rintro ⟨⟨swapchain, graphics, present, address, indexing, synchronization, rendering, version⟩, minor⟩
    exact ⟨swapchain, graphics, present, address, indexing, synchronization, rendering, version, minor⟩

end One

variable {answer : Nat → Nat → Except E Bool} {devices rest : List PhysicalDevice} {best last : BestDevice}
  {result : E}

/-- What makes the loop replace the best device so far. -/
structure PhysicalDevice.Replaces (headless : Bool) (answer : Nat → Except E Bool) (d : PhysicalDevice) :
    Prop where
  discrete : d.deviceType = .discreteGpu
  suitable : d.Suitable headless answer
  minor : minMinorVersion ≤ vkVersionMinor d.apiVersion

/-- The best device after the turn of device `i`, if no callback fails in it. -/
def bestOf (headless : Bool) (answer : Nat → Except E Bool) (i : Nat) (d : PhysicalDevice) (best : BestDevice) :
    BestDevice :=
  let graphics_queues := graphicsQueues d.queueFamilies
  let present_queues := presentQueues headless answer d.queueFamilies
  let q := candidate i d graphics_queues present_queues
  if best.best_device = -1 then q
  else if q.is_gpu && satisfiesRequirements headless d graphics_queues present_queues then q
  else best

/-- One turn of the loop in which no callback failed. -/
theorem deviceLoop_cons (ran : deviceLoop headless answer i (d :: rest) best = .ok last) :
    deviceLoop headless answer (i + 1) rest (bestOf headless (answer i) i d best) = .ok last ∧
      (headless = false → ∀ j < d.queueFamilies.length, ∃ support, answer i j = .ok support) := by
  rw [deviceLoop] at ran
  cases families : familyLoop headless (answer i) 0 d.queueFamilies [] [] with
  | error result =>
    rw [families] at ran
    cases ran
  | ok queues =>
    rw [families] at ran
    obtain ⟨graphics, present, answered⟩ := familyLoop_ok families
    rw [List.nil_append] at graphics present
    simp only [Nat.zero_add] at answered
    refine ⟨?_, answered⟩
    rw [bestOf, ← ran]
    dsimp only
    rw [graphics, present]
    rfl

/-- A device that replaces the best one so far. -/
theorem bestOf_replaces (some_ : best.best_device ≠ -1) (replaces : d.Replaces headless (answer i)) :
    (bestOf headless (answer i) i d best).best_device = i ∧
      (bestOf headless (answer i) i d best).Records headless (answer i) d := by
  have test := satisfies_iff.mpr ⟨replaces.suitable, replaces.minor⟩
  have kept : bestOf headless (answer i) i d best = candidate i d (graphicsQueues d.queueFamilies)
      (presentQueues headless (answer i) d.queueFamilies) := by
    rw [bestOf, if_neg some_, test, Bool.and_true]
    exact if_pos (decide_eq_true replaces.discrete)
  rw [kept]
  exact ⟨rfl, candidate_records replaces.suitable⟩

/-- A device that does not replace the best one so far. -/
theorem bestOf_other (some_ : best.best_device ≠ -1) (other : ¬ d.Replaces headless (answer i)) :
    bestOf headless (answer i) i d best = best := by
  rw [bestOf, if_neg some_, if_neg]
  intro test
  obtain ⟨discrete, satisfies⟩ := (Bool.and_eq_true _ _).mp test
  obtain ⟨suitable, minor⟩ := satisfies_iff.mp satisfies
  exact other ⟨of_decide_eq_true discrete, suitable, minor⟩

/-- **The devices behind the first**: the loop ends with one that replaced what was there, or none did. -/
theorem deviceLoop_later (some_ : best.best_device ≠ -1) (ran : deviceLoop headless answer i rest best = .ok last) :
    (∃ (k : Nat) (d : PhysicalDevice), rest[k]? = some d ∧ d.Replaces headless (answer (i + k)) ∧
        last.best_device = (i + k : Nat) ∧ last.Records headless (answer (i + k)) d) ∨
      last = best ∧
        ∀ (k : Nat) (d : PhysicalDevice), rest[k]? = some d → ¬ d.Replaces headless (answer (i + k)) := by
  induction rest generalizing i best with
  | nil =>
    cases ran
    exact Or.inr ⟨rfl, fun k d none_ => by simp at none_⟩
  | cons d rest ih =>
    have later := (deviceLoop_cons ran).1
    have shift : ∀ k, i + 1 + k = i + (k + 1) := fun k => by omega
    by_cases replaces : d.Replaces headless (answer i)
    · obtain ⟨index, records⟩ := bestOf_replaces some_ replaces
      rcases ih (by omega) later with ⟨k, e, there, found, place, kept⟩ | ⟨rfl, -⟩
      · rw [shift] at found place kept
        exact Or.inl ⟨k + 1, e, there, found, place, kept⟩
      · exact Or.inl ⟨0, d, rfl, replaces, index, records⟩
    · rw [bestOf_other some_ replaces] at later
      rcases ih some_ later with ⟨k, e, there, found, place, kept⟩ | ⟨same, none_⟩
      · rw [shift] at found place kept
        exact Or.inl ⟨k + 1, e, there, found, place, kept⟩
      · refine Or.inr ⟨same, fun k e there => ?_⟩
        cases k with
        | zero =>
          obtain rfl := Option.some.inj there
          exact replaces
        | succ k => exact shift k ▸ none_ k e there

/-- Where the loop goes through, no callback failed. -/
theorem deviceLoop_answered (ran : deviceLoop headless answer i devices best = .ok last) (called : headless = false)
    {k j : Nat} (here : devices[k]? = some d) (inside : j < d.queueFamilies.length) :
    ∃ support, answer (i + k) j = .ok support := by
  induction devices generalizing i best k with
  | nil => simp at here
  | cons first rest ih =>
    obtain ⟨later, answered⟩ := deviceLoop_cons ran
    cases k with
    | zero =>
      obtain rfl := Option.some.inj here
      exact answered called j inside
    | succ k =>
      rw [← Nat.add_assoc, Nat.add_right_comm]
      exact ih later here

/-- Where it does not, one did. -/
theorem deviceLoop_error (ran : deviceLoop headless answer i devices best = .error result) :
    headless = false ∧ ∃ (k : Nat) (d : PhysicalDevice) (j : Nat), devices[k]? = some d ∧
      j < d.queueFamilies.length ∧ answer (i + k) j = .error result := by
  induction devices generalizing i best with
  | nil => cases ran
  | cons d rest ih =>
    rw [deviceLoop] at ran
    cases families : familyLoop headless (answer i) 0 d.queueFamilies [] [] with
    | error failure =>
      rw [families] at ran
      cases ran
      obtain ⟨called, j, inside, failed⟩ := familyLoop_error families
      rw [Nat.zero_add] at failed
      exact ⟨called, 0, d, j, rfl, inside, failed⟩
    | ok queues =>
      rw [families] at ran
      obtain ⟨called, k, e, j, there, inside, failed⟩ := ih ran
      refine ⟨called, k + 1, e, j, there, inside, ?_⟩
      rw [← failed, ← Nat.add_assoc, Nat.add_right_comm]

/-- What is used of the loop, when no callback fails. -/
theorem picks_iff (ran : deviceLoop headless answer 0 devices noDevice = .ok last) :
    last.Picks headless answer devices ↔ LaterOrFirst headless answer devices := by
  cases devices with
  | nil =>
    refine iff_of_false (fun ⟨i, d, _, here, _⟩ => by simp at here) fun found => ?_
    rcases found with ⟨i, d, here, -⟩ | ⟨d, here, -⟩
    · simp at here
    · simp at here
  | cons first rest =>
    have later := (deviceLoop_cons ran).1
    have start : bestOf headless (answer 0) 0 first noDevice = candidate 0 first (graphicsQueues first.queueFamilies)
        (presentQueues headless (answer 0) first.queueFamilies) := by
      rw [bestOf]
      exact if_pos rfl
    rw [start] at later
    have some_ : (candidate 0 first (graphicsQueues first.queueFamilies)
        (presentQueues headless (answer 0) first.queueFamilies)).best_device ≠ -1 := by
      change ((0 : Nat) : Int) ≠ -1
      decide
    rcases deviceLoop_later some_ later with ⟨k, d, there, found, place, kept⟩ | ⟨rfl, none_⟩
    · rw [Nat.add_comm] at found place kept
      exact iff_of_true ⟨k + 1, d, place, there, found.suitable, kept, fun _ => found.discrete⟩
        (Or.inl ⟨k, d, there, found.discrete, found.suitable, found.minor⟩)
    · constructor
      · rintro ⟨i, d, place, here, suitable, -, discrete⟩
        obtain rfl : i = 0 := Int.ofNat.inj place.symm
        refine Or.inr ⟨d, here, suitable, ?_⟩
        by_cases gpu : d.deviceType = .discreteGpu
        · exact Or.inl gpu
        · exact Or.inr fun k e there good isGpu => gpu (discrete ⟨k, e, there, good, isGpu⟩)
      · rintro (⟨k, d, there, discrete, suitable, minor⟩ | ⟨d, here, suitable, discrete⟩)
        · rw [Nat.add_comm] at suitable
          exact absurd ⟨discrete, suitable, minor⟩ (none_ k d there)
        · obtain rfl := Option.some.inj here
          refine ⟨0, first, rfl, rfl, suitable, candidate_records suitable, fun ⟨k, e, there, good, isGpu⟩ => ?_⟩
          exact discrete.resolve_right fun none_ => none_ k e there good isGpu

/-- **One loop**: it selects a suitable device exactly when a callback fails, so that nothing is selected, or a
later device is sure to be taken, or the first one is what it has to be. -/
theorem deviceLoop_iff : SelectsSuitable headless answer devices (deviceLoop headless answer 0 devices noDevice) ↔
    CallFails headless answer devices ∨ LaterOrFirst headless answer devices := by
  cases ran : deviceLoop headless answer 0 devices noDevice with
  | error result =>
    obtain ⟨called, k, d, j, there, inside, failed⟩ := deviceLoop_error ran
    rw [Nat.zero_add] at failed
    exact iff_of_true ⟨k, j, failed⟩ (Or.inl ⟨called, k, d, j, result, there, inside, failed⟩)
  | ok last =>
    have answered : ¬ CallFails headless answer devices := by
      rintro ⟨called, k, d, j, result, there, inside, failed⟩
      obtain ⟨support, said⟩ := deviceLoop_answered ran called there inside
      rw [Nat.zero_add, failed] at said
      cases said
    rw [or_iff_right answered]
    exact picks_iff ran

end Devices

/-- **The selection of the renderer and of the render interface** ends with a suitable device, discrete if there
is such a one, exactly when a discrete GPU behind the first device is suitable with a minor version of 3 or more,
or the first device is suitable and discrete if any suitable one is; that of the render interface also when a
callback fails. -/
theorem device_selection_iff (devices : List PhysicalDevice) (support : Nat → Nat → Bool) (headless : Bool)
    (suitable : Nat → Nat → RHResult × Bool) :
    (SelectsSuitable false (fun i j => .ok (support i j)) devices (rendererSelection support devices) ↔
        LaterOrFirst (E := Empty) false (fun i j => .ok (support i j)) devices) ∧
      (SelectsSuitable headless (fun i j => suitableAnswer (suitable i j)) devices
          (rhiSelection headless suitable devices) ↔
        CallFails headless (fun i j => suitableAnswer (suitable i j)) devices ∨
          LaterOrFirst headless (fun i j => suitableAnswer (suitable i j)) devices) := by
  refine ⟨deviceLoop_iff.trans (or_iff_right ?_), deviceLoop_iff⟩
  rintro ⟨-, _, _, _, result, -⟩
  exact result.elim

/-- A device that meets all requirements, of some type. -/
def goodDevice (deviceType : VkPhysicalDeviceType) : PhysicalDevice :=
  ⟨[khrSwapchainExtensionName], deviceType, 0x00403000, [1], true, true, true, true⟩

/-- A processor without a swapchain. -/
def softwareDevice : PhysicalDevice := ⟨[], .cpu, 0x00403000, [1], true, true, true, true⟩

/-- **An unsuitable device in front of a suitable one** that is no discrete GPU: it is what is used. Without
devices, what is used is device -1. -/
theorem first_device_used :
    (rendererSelection (fun _ _ => true) [softwareDevice, goodDevice .integratedGpu]).map (·.best_device) = .ok 0 ∧
    ¬ SelectsSuitable (E := Empty) false (fun _ _ => .ok true) [softwareDevice, goodDevice .integratedGpu]
      (rendererSelection (fun _ _ => true) [softwareDevice, goodDevice .integratedGpu]) ∧
    rendererSelection (fun _ _ => true) [] = .ok ⟨-1, 0, 0, false⟩ := by
  have ran :
      rendererSelection (fun _ _ => true) [softwareDevice, goodDevice .integratedGpu] = .ok ⟨0, 0, 0, false⟩ :=
    rfl
  refine ⟨by rw [ran]; rfl, ?_, rfl⟩
  rw [ran]
  rintro ⟨i, d, place, here, suitable, -⟩
  obtain rfl : i = 0 := Int.ofNat.inj place.symm
  obtain rfl := Option.some.inj here
  exact absurd suitable.swapchain List.not_mem_nil

end Vaudou
