import FidbPoc.Uploads.Client

namespace FidbPoc.Uploads

open Lib
open FidbPoc.Lib.Patterns (isSha256)

section Durability

variable {server : Server} {path : RelPath} {content : Bytes} {files files' : Files} {metadata : Option Bytes}
  {offset size : Nat} {phase : Phase}

theorem Durable.of_part (h : Durable server path content files) (hpath : files path = none)
    (hpart : (files path.partPath).isSome) : ∃ size, Uploading server path content files size := by
  cases h with
  | bare h => simp [h.part] at hpart
  | uploading h => exact ⟨_, h⟩
  | complete h => simp [h.destination] at hpath

theorem Durable.of_no_part (h : Durable server path content files) (hpath : files path = none)
    (hpart : files path.partPath = none) : ∃ metadata, Bare path files metadata := by
  cases h with
  | bare h => exact ⟨_, h⟩
  | uploading h => simp [h.part] at hpart
  | complete h => simp [h.destination] at hpath

theorem Durable.of_some (h : Durable server path content files) (hpath : (files path).isSome) :
    Complete path content files := by
  cases h with
  | bare h => simp [h.destination] at hpath
  | uploading h => simp [h.destination] at hpath
  | complete h => exact h

theorem Reached.durable (h : Reached server path content files offset phase) : Durable server path content files := by
  cases phase with
  | sizing | hashing | closing => exact .complete h
  | seekingPart | partFile => exact h.2
  | seekingMetadata =>
    obtain ⟨_, h⟩ := h
    exact .bare h
  | metadataFile | readingMetadata | measuring =>
    obtain ⟨_, h⟩ := h
    exact .uploading h
  | creating | describing | touching => exact .bare h
  | replaying => exact .uploading h.1
  | appending | totalling | verifying | installing => exact .uploading h
  | filling | replacing | cleaning | discarding | discardingMetadata => exact h.elim
  | _ => exact h

theorem Bare.update_metadata (h : Bare path files metadata) (text : Bytes) :
    Bare path (Function.update files path.metadataPath (some text)) (some text) where
  destination := by rw [Function.update_of_ne metadataPath_ne.symm, h.destination]
  part := by rw [Function.update_of_ne partPath_ne_metadataPath, h.part]
  metadata := Function.update_self ..

theorem Bare.touch (h : Bare path files (some (metadataText (artifactMetadata server path content)))) :
    Uploading server path content (Function.update files path.partPath (some [])) 0 where
  destination := by rw [Function.update_of_ne partPath_ne.symm, h.destination]
  part := by rw [Function.update_self, List.take_zero]
  metadata := by rw [Function.update_of_ne partPath_ne_metadataPath.symm, h.metadata]
  le := Nat.zero_le _

/-- The first bytes of a chunk are appended. -/
theorem Uploading.append (h : Uploading server path content files offset) (hoffset : offset < content.length) (written : Nat) :
    Uploading server path content (Function.update files path.partPath
      (some ((files path.partPath).getD [] ++ (chunkAt content offset).take written)))
      (offset + min written (chunkAt content offset).length) where
  destination := by rw [Function.update_of_ne partPath_ne.symm, h.destination]
  part := by
    rw [Function.update_self, h.part, Option.getD_some, List.take_add, chunkAt]
    congr 2
    rw [List.take_take, List.take_eq_take_iff, List.length_take, List.length_drop]
    omega
  metadata := by rw [Function.update_of_ne partPath_ne_metadataPath.symm, h.metadata]
  le := by
    rw [length_chunkAt]
    omega

theorem Uploading.append_all (h : Uploading server path content files offset) (hoffset : offset < content.length) :
    Uploading server path content (Function.update files path.partPath
      (some ((files path.partPath).getD [] ++ chunkAt content offset))) (offset + (chunkAt content offset).length) := by
  have happend := h.append hoffset (chunkAt content offset).length
  rwa [List.take_length, Nat.min_self] at happend

theorem complete_installed :
    Complete path content (Function.update (Function.update files path.partPath none) path (some content)) where
  destination := Function.update_self ..
  part := by rw [Function.update_of_ne partPath_ne, Function.update_self]

theorem Complete.remove_metadata (h : Complete path content files) :
    Complete path content (Function.update files path.metadataPath none) where
  destination := by rw [Function.update_of_ne metadataPath_ne.symm, h.destination]
  part := by rw [Function.update_of_ne partPath_ne_metadataPath, h.part]

end Durability

section Calls

variable {server : Server} {path : RelPath} {content : Bytes} {files files' : Files} {offset size : Nat} {phase phase' : Phase}

theorem reached_concluded {nextOffset : Nat} (h : Uploading server path content files size)
    (hsize : offset + (chunkAt content offset).length ≤ size) :
    Reached server path content files offset ((clientChunk server content offset).concluded nextOffset) := by
  unfold Chunk.concluded
  split
  · rename_i hfinal
    have hend : offset + (chunkAt content offset).length = content.length := of_decide_eq_true hfinal
    have hle := h.le
    obtain rfl : size = content.length := by omega
    exact h
  · exact .uploading h

theorem Reached.look {q : RelPath} {next : Option Bytes → Phase} (h : Reached server path content files offset phase)
    (haction : storeUploadChunk server path (clientChunk server content offset) phase = .look q next) :
    Reached server path content files offset (next (files q)) := by
  have hdurable := h.durable
  cases phase <;> cases haction <;> beta_reduce
  case finding =>
    split
    · rename_i hfound
      exact hdurable.of_some hfound
    · rename_i hfound
      rw [Option.not_isSome_iff_eq_none] at hfound
      exact ⟨hfound, hdurable⟩
  case sizing =>
    split
    · exact h
    · exact hdurable
  case hashing =>
    split
    · split <;> exact hdurable
    · exact hdurable
  case seekingPart =>
    split
    · exact h
    · rename_i hfound
      rw [Option.not_isSome_iff_eq_none] at hfound
      exact h.2.of_no_part h.1 hfound
  case seekingMetadata =>
    obtain ⟨metadata, hbare⟩ := h
    split
    · exact ⟨hbare.destination, hdurable⟩
    · rename_i hfound
      rw [Option.not_isSome_iff_eq_none] at hfound
      split
      · exact ⟨hbare.destination, hbare.part, hfound⟩
      · exact hdurable
  case partFile =>
    split
    · rename_i hfound
      exact h.2.of_part h.1 hfound
    · exact hdurable
  case metadataFile =>
    split
    · exact h
    · exact hdurable
  case readingMetadata =>
    split
    · exact h
    · exact hdurable
  case measuring =>
    obtain ⟨size, h⟩ := h
    have hlength : (content.take size).length = size := List.length_take_of_le h.le
    rw [h.part]
    simp only [hlength]
    split
    · exact hdurable
    · split
      · exact ⟨h, by assumption⟩
      · rename_i hle hlt
        have hsize : size = offset := by
          simp only [clientChunk] at hle hlt
          omega
        exact hsize ▸ h
  case replaying size =>
    rw [h.1.part]
    split
    · rename_i hsame
      exact reached_concluded h.1 ((replay_eq_iff h.2 h.1.le).mp (of_decide_eq_true hsame))
    · exact hdurable
  case totalling =>
    split
    · exact h
    · exact hdurable
  case verifying =>
    have hpart : files path.partPath = some content := by rw [h.part, List.take_length]
    rw [hpart]
    simp only [clientChunk, if_true]
    exact h

/-- A call keeps what the client's chunk has reached. -/
theorem Reached.perform (h : Reached server path content files offset phase) (hoffset : offset < content.length)
    (hperform : perform files (storeUploadChunk server path (clientChunk server content offset) phase) = some (files', phase')) :
    Reached server path content files' offset phase' := by
  have hdurable := h.durable
  cases haction : storeUploadChunk server path (clientChunk server content offset) phase with
  | look q next =>
    rw [haction] at hperform
    cases hperform
    exact h.look haction
  | acquire | mkstemp | answer | raise =>
    rw [haction] at hperform
    cases hperform
  | append q bytes next =>
    rw [haction] at hperform
    cases hperform
    cases phase <;> cases haction
    · have hempty : files path.metadataPath = some [] := h.metadata
      rw [hempty]
      exact Bare.update_metadata h _
    · exact reached_concluded (h.append_all hoffset) (Nat.le_refl _)
  | create q next =>
    rw [haction] at hperform
    cases phase <;> cases haction
    have hnone : files path.metadataPath = none := h.metadata
    simp only [Uploads.perform, hnone] at hperform
    cases hperform
    exact Bare.update_metadata h _
  | touch q next =>
    rw [haction] at hperform
    cases phase <;> cases haction
    have hnone : files path.partPath = none := h.part
    simp only [Uploads.perform, hnone] at hperform
    cases hperform
    exact ⟨0, Bare.touch h⟩
  | rename source destination next =>
    rw [haction] at hperform
    cases phase <;> cases haction
    have hpart : files path.partPath = some content := by rw [h.part, List.take_length]
    simp only [Uploads.perform, hpart] at hperform
    cases hperform
    exact complete_installed
  | unlink q missingOk next =>
    rw [haction] at hperform
    cases phase <;> cases haction
    · exact h.elim
    · exact h.elim
    · simp only [Uploads.perform] at hperform
      split at hperform <;> cases hperform
      · exact .complete (Complete.remove_metadata h)
      · exact hdurable

/-- A torn write leaves a durable state too. -/
theorem Reached.tear {q : RelPath} {bytes : Bytes} {next : Phase} (h : Reached server path content files offset phase)
    (hoffset : offset < content.length)
    (haction : storeUploadChunk server path (clientChunk server content offset) phase = .append q bytes next) (written : Nat) :
    Durable server path content (Function.update files q (some ((files q).getD [] ++ bytes.take written))) := by
  cases phase <;> cases haction
  · exact .bare (Bare.update_metadata h _)
  · exact .uploading (Uploading.append h hoffset written)

theorem reached_unlocked {h : Handling} (hbody : ∃ chunk, h.request.body = .chunk chunk) (hlocked : ¬ h.locked)
    (hdurable : Durable server path content files') : Reached server path content files' offset h.phase := by
  have hwaiting : h.phase = .waiting := by
    by_contra hne
    exact hlocked ⟨hbody, hne⟩
  rw [hwaiting]
  exact hdurable

end Calls

section Sessions

variable {server : Server} {path : RelPath} {content : Bytes} {files files' : Files} {handling : Nat → Option Handling}
  {session session' : Session} {site site' : Site} {h : Handling} {op : Op} {i : Nat}

/-- What holds of a request of the client. -/
def Sent (server : Server) (path : RelPath) (content : Bytes) (files : Files) (h : Handling) : Prop :=
  ∃ offset, offset < content.length ∧ h.request = chunkRequest server path content offset ∧
    Reached server path content files offset h.phase

/-- The staging directory while one artifact is uploaded. -/
structure Held (server : Server) (path : RelPath) (content : Bytes) (files : Files) (handling : Nat → Option Handling) :
    Prop where
  durable : Durable server path content files
  sent : ∀ i h, handling i = some h → Sent server path content files h
  alone : ∀ i j h other, handling i = some h → handling j = some other → h.locked → other.locked → i = j

theorem Sent.of_unlocked (h' : Sent server path content files h) (hlocked : ¬ h.locked)
    (hdurable : Durable server path content files') : Sent server path content files' h := by
  obtain ⟨offset, hoffset, hrequest, -⟩ := h'
  exact ⟨offset, hoffset, hrequest, reached_unlocked ⟨_, by rw [hrequest]; rfl⟩ hlocked hdurable⟩

/-- The request with the lock goes on or ends. -/
theorem Held.of_locked (hheld : Held server path content files handling) (hhandling : handling i = some h)
    (hlocked : h.locked) (hdurable : Durable server path content files') (next : Option Handling)
    (hnext : ∀ h', next = some h' → Sent server path content files' h') :
    Held server path content files' (Function.update handling i next) := by
  have hother : ∀ j other, j ≠ i → handling j = some other → ¬ other.locked :=
    fun j other hj hhandling' hlocked' => hj (hheld.alone j i _ _ hhandling' hhandling hlocked' hlocked)
  refine ⟨hdurable, fun j other hj => ?_, fun j k other other' hj hk hlocked hlocked' => ?_⟩
  · by_cases hji : j = i
    · subst hji
      rw [Function.update_self] at hj
      exact hnext other hj
    · rw [Function.update_of_ne hji] at hj
      exact (hheld.sent j other hj).of_unlocked (hother j other hji hj) hdurable
  · have hi : ∀ l other, Function.update handling i next l = some other → other.locked → l = i := by
      intro l other hl hlocked
      by_contra hli
      rw [Function.update_of_ne hli] at hl
      exact hother l other hli hl hlocked
    rw [hi j other hj hlocked, hi k other' hk hlocked']

/-- A request ends, and the files stay as they are. -/
theorem Held.remove (hheld : Held server path content files handling) :
    Held server path content files (Function.update handling i none) := by
  have hmem : ∀ j other, Function.update handling i none j = some other → handling j = some other := by
    intro j other hj
    by_cases hji : j = i
    · subst hji
      rw [Function.update_self] at hj
      cases hj
    · rwa [Function.update_of_ne hji] at hj
  exact ⟨hheld.durable, fun j other hj => hheld.sent j other (hmem j other hj),
    fun j k other other' hj hk => hheld.alone j k other other' (hmem j other hj) (hmem k other' hk)⟩

/-- A request of the client arrives or gets the lock. -/
theorem Held.update (hheld : Held server path content files handling) (h' : Handling) (hsent : Sent server path content files h')
    (hfree : h'.locked → ∀ j other, j ≠ i → handling j = some other → ¬ other.locked) :
    Held server path content files (Function.update handling i (some h')) := by
  have hcases : ∀ j other, Function.update handling i (some h') j = some other →
      j = i ∧ other = h' ∨ j ≠ i ∧ handling j = some other := by
    intro j other hj
    by_cases hji : j = i
    · subst hji
      rw [Function.update_self] at hj
      exact .inl ⟨rfl, (Option.some.inj hj).symm⟩
    · rw [Function.update_of_ne hji] at hj
      exact .inr ⟨hji, hj⟩
  refine ⟨hheld.durable, fun j other hj => ?_, fun j k other other' hj hk hlocked hlocked' => ?_⟩
  · obtain ⟨-, rfl⟩ | ⟨-, hj⟩ := hcases j other hj
    · exact hsent
    · exact hheld.sent j other hj
  · obtain ⟨hji, hother⟩ | ⟨hji, hbefore⟩ := hcases j other hj <;>
      obtain ⟨hki, hother'⟩ | ⟨hki, hbefore'⟩ := hcases k other' hk
    · rw [hji, hki]
    · exact (hfree (hother ▸ hlocked) k other' hki hbefore' hlocked').elim
    · exact (hfree (hother' ▸ hlocked') j other hji hbefore hlocked).elim
    · exact hheld.alone j k other other' hbefore hbefore' hlocked hlocked'

theorem Sent.action (h' : Sent server path content files h) : ∃ offset, offset < content.length ∧
    h.request = chunkRequest server path content offset ∧ Reached server path content files offset h.phase ∧
    h.action server = storeUploadChunk server path (clientChunk server content offset) h.phase := by
  obtain ⟨offset, hoffset, hrequest, hreached⟩ := h'
  refine ⟨offset, hoffset, hrequest, hreached, ?_⟩
  rw [Handling.action, hrequest]
  rfl

theorem Held.next (hheld : Held server path content site.files site.handling) (hn : Next server site op site')
    (harrives : op.arrives = false) : Held server path content site'.files site'.handling := by
  cases hn with
  | arrive => cases harrives
  | @run _ h files' phase' hhandling hperform =>
    obtain ⟨offset, hoffset, hrequest, hreached, haction⟩ := (hheld.sent _ _ hhandling).action
    rw [haction] at hperform
    have hlocked : h.locked := by
      refine ⟨⟨_, by rw [hrequest]; rfl⟩, fun hwaiting => ?_⟩
      rw [hwaiting] at hperform
      cases hperform
    have hafter := hreached.perform hoffset hperform
    refine hheld.of_locked hhandling hlocked hafter.durable _ ?_
    rintro _ ⟨⟩
    exact ⟨offset, hoffset, hrequest, hafter⟩
  | @acquire _ h phase' hhandling haction' hfree =>
    obtain ⟨offset, hoffset, hrequest, hreached, haction⟩ := (hheld.sent _ _ hhandling).action
    have hfinding : phase' = .finding := by
      rw [haction] at haction'
      cases hphase : h.phase <;> rw [hphase] at haction' <;> cases haction'
      rfl
    subst hfinding
    refine hheld.update _ ⟨offset, hoffset, hrequest, hheld.durable⟩ fun _ j other _ hj hlocked => ?_
    obtain ⟨offset', -, hrequest', -⟩ := hheld.sent j other hj
    exact hfree j other hj hlocked (by rw [hrequest, hrequest']; rfl)
  | @draw _ h next suffix hhandling haction' =>
    obtain ⟨offset, -, -, -, haction⟩ := (hheld.sent _ _ hhandling).action
    rw [haction] at haction'
    cases hphase : h.phase <;> rw [hphase] at haction' <;> cases haction'
  | answer | raise | kill => exact hheld.remove
  | @fail _ h hhandling =>
    obtain ⟨offset, -, -, hreached⟩ := hheld.sent _ _ hhandling
    have hnone : h.phase.temporary = none := by
      cases hphase : h.phase <;> rw [hphase] at hreached <;> first | rfl | exact hreached.elim
    dsimp only
    rw [hnone]
    exact hheld.remove
  | @tear _ written h q bytes next hhandling haction' =>
    obtain ⟨offset, hoffset, hrequest, hreached, haction⟩ := (hheld.sent _ _ hhandling).action
    rw [haction] at haction'
    have hlocked : h.locked := by
      refine ⟨⟨_, by rw [hrequest]; rfl⟩, fun hwaiting => ?_⟩
      rw [hwaiting] at haction'
      cases haction'
    refine hheld.of_locked hhandling hlocked (hreached.tear hoffset haction' written) _ ?_
    rintro _ ⟨⟩

theorem Held.arrive {offset : Nat} (hheld : Held server path content site.files site.handling) (hoffset : offset < content.length)
    (hn : Next server site (.arrive i (chunkRequest server path content offset)) site') :
    Held server path content site'.files site'.handling := by
  cases hn
  exact hheld.update _ ⟨offset, hoffset, rfl, hheld.durable⟩ fun hlocked => (hlocked.2 rfl).elim

theorem Held.sessionNext {op : SessionOp} (hheld : Held server path content session.site.files session.site.handling)
    (hn : SessionNext server path content session op session') :
    Held server path content session'.site.files session'.site.handling := by
  cases hn with
  | begin | lose => exact hheld
  | send _ hoffset hn => exact hheld.arrive hoffset hn
  | serve hn harrives => exact hheld.next hn harrives
  | reply _ _ _ hn => exact hheld.next hn rfl
  | @refuse _ _ op _ _ hn hends => exact hheld.next hn (by cases op <;> first | rfl | cases hends)

theorem held_newSession : Held server path content newSession.site.files newSession.site.handling :=
  ⟨.bare ⟨rfl, rfl, rfl⟩, fun i h hhandling => (by cases hhandling), fun i j h other hhandling => by cases hhandling⟩

/-- Whatever the connection and the server go through, the staging directory is in one of a few durable states. -/
theorem durable_session {trace : List (Step Session SessionOp)}
    (h : Run (SessionNext server path content) newSession trace session) : Durable server path content session.site.files :=
  (h.invariant (P := fun session => Held server path content session.site.files session.site.handling) held_newSession
    fun _ _ hn hheld => hheld.sessionNext hn).durable

end Sessions

section Serving

variable {server : Server} {path : RelPath} {content : Bytes} {files files' : Files} {offset size nextOffset : Nat}
  {phase phase' : Phase} {result : Files × Option Answer}

/-- With enough fuel, this is what serving the client's chunk comes to. -/
def Serves (server : Server) (path : RelPath) (content : Bytes) (offset : Nat) (files : Files) (phase : Phase)
    (result : Files × Option Answer) : Prop :=
  ∃ bound, ∀ fuel, bound ≤ fuel → serve server (chunkRequest server path content offset) fuel files phase = some result

theorem Serves.step
    (hperform : perform files (storeUploadChunk server path (clientChunk server content offset) phase) = some (files', phase'))
    (h : Serves server path content offset files' phase' result) : Serves server path content offset files phase result := by
  obtain ⟨bound, h⟩ := h
  refine ⟨bound + 1, fun fuel hfuel => ?_⟩
  obtain ⟨fuel, rfl⟩ := Nat.exists_eq_add_of_le' hfuel
  have haction : Handling.action server ⟨chunkRequest server path content offset, phase⟩ =
    storeUploadChunk server path (clientChunk server content offset) phase := rfl
  rw [← Nat.add_assoc, serve, haction, hperform]
  exact h _ (by omega)

theorem Serves.look {q : RelPath} {next : Option Bytes → Phase}
    (haction : storeUploadChunk server path (clientChunk server content offset) phase = .look q next)
    (h : Serves server path content offset files (next (files q)) result) :
    Serves server path content offset files phase result :=
  .step (by rw [haction]; rfl) h

theorem Serves.waiting (h : Serves server path content offset files .finding result) :
    Serves server path content offset files .waiting result := by
  obtain ⟨bound, h⟩ := h
  refine ⟨bound + 1, fun fuel hfuel => ?_⟩
  obtain ⟨fuel, rfl⟩ := Nat.exists_eq_add_of_le' hfuel
  exact h (fuel + bound) (by omega)

theorem serves_raising : Serves server path content offset files .raising (files, none) := by
  refine ⟨1, fun fuel hfuel => ?_⟩
  obtain ⟨fuel, rfl⟩ := Nat.exists_eq_add_of_le' hfuel
  rfl

theorem serves_answering {answer : Answer} :
    Serves server path content offset files (.answering answer) (files, some answer) := by
  refine ⟨1, fun fuel hfuel => ?_⟩
  obtain ⟨fuel, rfl⟩ := Nat.exists_eq_add_of_le' hfuel
  rfl

theorem serves_complete (h : Complete path content files) : Serves server path content offset files .waiting
    (files, some (.chunk (server.sha256 content) content.length content.length true)) := by
  apply Serves.waiting
  apply Serves.look rfl
  rw [h.destination]
  apply Serves.look rfl
  rw [h.destination]
  apply Serves.look rfl
  rw [h.destination]
  simp only [clientChunk, and_self, if_true]
  exact serves_answering

/-- Metadata without a partial file is refused. -/
theorem serves_bare {metadata : Bytes} (h : Bare path files (some metadata)) :
    Serves server path content offset files .waiting (files, none) := by
  apply Serves.waiting
  apply Serves.look rfl
  rw [h.destination]
  apply Serves.look rfl
  rw [h.part]
  apply Serves.look rfl
  rw [h.metadata]
  apply Serves.look rfl
  rw [h.part]
  exact serves_raising

/-- The first chunk begins the upload. -/
theorem serves_fresh (server : Server) (content : Bytes) (h : Bare path files none) : ∃ files', Uploading server path content files' 0 ∧
    ∀ result, Serves server path content 0 files' .measuring result → Serves server path content 0 files .waiting result := by
  let created := Function.update files path.metadataPath (some [])
  let described := Function.update created path.metadataPath (some (metadataText (artifactMetadata server path content)))
  have hcreated : Bare path created (some []) := h.update_metadata []
  have hdescribed : Bare path described (some (metadataText (artifactMetadata server path content))) :=
    hcreated.update_metadata _
  have hcreating : perform files (storeUploadChunk server path (clientChunk server content 0) .creating) =
      some (created, .describing) := by
    simp [storeUploadChunk, perform, h.metadata, created]
  have hdescribing : perform created (storeUploadChunk server path (clientChunk server content 0) .describing) =
      some (described, .touching) := by
    simp [storeUploadChunk, perform, hcreated.metadata, described, artifactMetadata, clientChunk, Chunk.metadata]
  have htouching : perform described (storeUploadChunk server path (clientChunk server content 0) .touching) =
      some (Function.update described path.partPath (some []), .measuring) := by
    simp [storeUploadChunk, perform, hdescribed.part]
  refine ⟨_, hdescribed.touch, fun result hresult => ?_⟩
  apply Serves.waiting
  apply Serves.look rfl
  rw [h.destination]
  apply Serves.look rfl
  rw [h.part]
  apply Serves.look rfl
  rw [h.metadata]
  exact .step hcreating (.step hdescribing (.step htouching hresult))

section Begun

variable (hloads : server.loads (metadataText (artifactMetadata server path content)) = some (artifactMetadata server path content))

include hloads

/-- The metadata of an upload that has begun are found to be the artifact's. -/
theorem serves_uploading (h : Uploading server path content files size)
    (hresult : Serves server path content offset files .measuring result) :
    Serves server path content offset files .waiting result := by
  apply Serves.waiting
  apply Serves.look rfl
  rw [h.destination]
  apply Serves.look rfl
  rw [h.part]
  apply Serves.look rfl
  rw [h.part]
  apply Serves.look rfl
  rw [h.metadata]
  apply Serves.look rfl
  rw [h.metadata, Option.bind_some, hloads]
  simp only [artifactMetadata, Chunk.metadata, clientChunk, if_true]
  exact hresult

end Begun

theorem serves_measuring (h : Uploading server path content files size) (hoffset : offset < size)
    (hresult : Serves server path content offset files (.replaying size) result) :
    Serves server path content offset files .measuring result := by
  have hlength : (content.take size).length = size := List.length_take_of_le h.le
  have hlt : ¬ size < offset := by omega
  apply Serves.look rfl
  rw [h.part]
  simp only [hlength, clientChunk, if_neg hlt, if_pos hoffset]
  exact hresult

/-- A chunk that the partial file covers in part is refused. -/
theorem serves_short (h : Uploading server path content files size) (hoffset : offset < size)
    (hshort : size < offset + (chunkAt content offset).length) :
    Serves server path content offset files .measuring (files, none) := by
  refine serves_measuring h hoffset ?_
  have hreplay : ¬ ((content.take size).drop offset).take (chunkAt content offset).length = chunkAt content offset := by
    rw [replay_eq_iff hoffset h.le]
    omega
  apply Serves.look rfl
  rw [h.part]
  simp only [Option.any_some, clientChunk, hreplay, decide_false, Bool.false_eq_true, if_false]
  exact serves_raising

theorem serves_replaying (h : Uploading server path content files size) (hoffset : offset < size)
    (hcovered : offset + (chunkAt content offset).length ≤ size)
    (hresult : Serves server path content offset files ((clientChunk server content offset).concluded size) result) :
    Serves server path content offset files .measuring result := by
  refine serves_measuring h hoffset ?_
  have hreplay := (replay_eq_iff hoffset h.le).mpr hcovered
  apply Serves.look rfl
  rw [h.part]
  simp only [Option.any_some, clientChunk, hreplay, decide_true, if_true, Nat.max_eq_left hcovered]
  exact hresult

theorem serves_appending (h : Uploading server path content files offset) (hoffset : offset < content.length) :
    ∃ files', Uploading server path content files' (offset + (chunkAt content offset).length) ∧
      ∀ result, Serves server path content offset files'
        ((clientChunk server content offset).concluded (offset + (chunkAt content offset).length)) result →
        Serves server path content offset files .measuring result := by
  refine ⟨_, h.append_all hoffset, fun result hresult => ?_⟩
  have hlength : (content.take offset).length = offset := List.length_take_of_le h.le
  apply Serves.look rfl
  rw [h.part]
  simp only [hlength, clientChunk, Nat.lt_irrefl, if_false]
  exact Serves.step (show perform files (storeUploadChunk server path _ .appending) = _ from rfl) hresult

/-- A full partial file is installed. -/
theorem serves_totalling (offset nextOffset : Nat) (h : Uploading server path content files content.length) : ∃ files', Complete path content files' ∧
    Serves server path content offset files (.totalling nextOffset)
      (files', some (.chunk (server.sha256 content) content.length nextOffset true)) := by
  have hpart : files path.partPath = some content := by rw [h.part, List.take_length]
  let installed := Function.update (Function.update files path.partPath none) path (some content)
  have hinstalled : Complete path content installed := complete_installed
  have hmetadata : installed path.metadataPath = some (metadataText (artifactMetadata server path content)) := by
    dsimp only [installed]
    rw [Function.update_of_ne metadataPath_ne, Function.update_of_ne partPath_ne_metadataPath.symm, h.metadata]
  have hinstalling : perform files (storeUploadChunk server path (clientChunk server content offset) (.installing nextOffset)) =
      some (installed, .closing nextOffset) := by
    simp [storeUploadChunk, perform, hpart, installed]
  have hclosing : perform installed (storeUploadChunk server path (clientChunk server content offset) (.closing nextOffset)) =
      some (Function.update installed path.metadataPath none,
        .answering (.chunk (server.sha256 content) content.length nextOffset true)) := by
    simp [storeUploadChunk, perform, hmetadata, clientChunk]
  refine ⟨_, hinstalled.remove_metadata, ?_⟩
  apply Serves.look rfl
  rw [hpart]
  simp only [Option.any_some, clientChunk, decide_true, if_true]
  apply Serves.look rfl
  rw [hpart]
  simp only [clientChunk, if_true]
  exact .step hinstalling (.step hclosing serves_answering)

end Serving

section Sending

variable {server : Server} {path : RelPath} {content : Bytes} {files files' : Files} {offset size nextOffset : Nat}
  {answer : Answer} {outcome : Outcome}

theorem acknowledge_complete :
    acknowledge server content offset (.chunk (server.sha256 content) content.length content.length true) = .returned := by
  simp [acknowledge]

theorem acknowledge_covered (hend : offset + (chunkAt content offset).length ≤ nextOffset) (hnext : nextOffset < content.length) :
    acknowledge server content offset (.chunk (server.sha256 content) content.length nextOffset false) =
      .sending nextOffset := by
  have hne : nextOffset ≠ content.length := by omega
  simp [acknowledge, hend, hne, Nat.le_of_lt hnext]

theorem acknowledge_full (hend : offset + (chunkAt content offset).length ≤ content.length) :
    acknowledge server content offset (.chunk (server.sha256 content) content.length content.length false) =
      .sending (content.length - maxChunkBytes) := by
  simp [acknowledge, hend]

theorem chunkAt_length_pos (hoffset : offset < content.length) : 0 < (chunkAt content offset).length := by
  have hpos := maxChunkBytes_pos
  rw [length_chunkAt]
  omega

theorem chunkAt_end_le (hoffset : offset < content.length) : offset + (chunkAt content offset).length ≤ content.length := by
  rw [length_chunkAt]
  omega

theorem concluded_final (hend : offset + (chunkAt content offset).length = content.length) :
    (clientChunk server content offset).concluded nextOffset = .totalling nextOffset := by
  simp [Chunk.concluded, clientChunk, hend]

theorem concluded_early (hend : offset + (chunkAt content offset).length ≠ content.length) :
    (clientChunk server content offset).concluded nextOffset =
      .answering (.chunk (server.sha256 content) content.length nextOffset false) := by
  simp [Chunk.concluded, clientChunk, hend]

section Accepted

variable (hbytes : content.length ≤ server.maxArtifactBytes) (hsha256 : ∀ bytes, isSha256 (server.sha256 bytes))

include hbytes hsha256

theorem chunkRequest_accepted (hoffset : offset < content.length) :
    server.Accepts (chunkRequest server path content offset) := by
  have hpos := chunkAt_length_pos hoffset
  refine ⟨⟨?_, hbytes⟩, hoffset, ⟨?_, ?_, chunkAt_end_le hoffset⟩, rfl, hsha256 _, rfl, hsha256 _⟩
  · exact Nat.zero_lt_of_lt hoffset
  · exact List.ne_nil_of_length_pos hpos
  · rw [clientChunk, length_chunkAt]
    exact Nat.min_le_left _ _

theorem Serves.upload {result : Files × Option Answer} (h : Serves server path content offset files .waiting result)
    (hoffset : offset < content.length) : ∃ bound, ∀ fuel, bound ≤ fuel →
      respond server fuel files (chunkRequest server path content offset) = some result := by
  obtain ⟨bound, h⟩ := h
  refine ⟨bound, fun fuel hfuel => ?_⟩
  rw [respond, if_pos (chunkRequest_accepted hbytes hsha256 hoffset)]
  exact h fuel hfuel

/-- A refused chunk ends the upload. -/
theorem ends_failed (hoffset : offset < content.length)
    (h : Serves server path content offset files .waiting (files', none)) :
    Ends server path content files offset ⟨.failed, files', []⟩ := by
  obtain ⟨bound, hbound⟩ := h.upload hbytes hsha256 hoffset
  refine ⟨bound + 1, fun fuel hfuel => ?_⟩
  obtain ⟨fuel, rfl⟩ := Nat.exists_eq_add_of_le' hfuel
  rw [← Nat.add_assoc, Uploads.upload, if_neg (by omega), hbound _ (by omega)]

theorem ends_returned (hoffset : offset < content.length)
    (h : Serves server path content offset files .waiting
      (files', some (.chunk (server.sha256 content) content.length content.length true))) :
    Ends server path content files offset
      ⟨.returned, files', [(offset + (chunkAt content offset).length, some content.length)]⟩ := by
  obtain ⟨bound, hbound⟩ := h.upload hbytes hsha256 hoffset
  refine ⟨bound + 1, fun fuel hfuel => ?_⟩
  obtain ⟨fuel, rfl⟩ := Nat.exists_eq_add_of_le' hfuel
  rw [← Nat.add_assoc, Uploads.upload, if_neg (by omega), hbound _ (by omega)]
  simp only [acknowledge_complete]
  rfl

theorem ends_sending (hoffset : offset < content.length)
    (h : Serves server path content offset files .waiting (files', some answer))
    (hacknowledge : acknowledge server content offset answer = .sending nextOffset)
    (hrest : Ends server path content files' nextOffset outcome) :
    Ends server path content files offset
      { outcome with
        acknowledged := (offset + (chunkAt content offset).length, answer.nextOffset) :: outcome.acknowledged } := by
  obtain ⟨bound, hbound⟩ := h.upload hbytes hsha256 hoffset
  obtain ⟨bound', hrest⟩ := hrest
  refine ⟨max bound bound' + 1, fun fuel hfuel => ?_⟩
  obtain ⟨fuel, rfl⟩ := Nat.exists_eq_add_of_le' hfuel
  rw [← Nat.add_assoc, Uploads.upload, if_neg (by omega), hbound _ (by omega)]
  simp only [hacknowledge]
  rw [hrest _ (by omega)]
  rfl

end Accepted

end Sending

section Finishing

variable {server : Server} {path : RelPath} {content : Bytes} {files files' : Files} {offset size nextOffset : Nat}
  {answer : Answer} {outcome : Outcome}

/-- An upload from the offset ends without an error. -/
def Finishes (server : Server) (path : RelPath) (content : Bytes) (files : Files) (offset : Nat) : Prop :=
  ∃ outcome, outcome.Returned path content ∧ Ends server path content files offset outcome

variable (hbytes : content.length ≤ server.maxArtifactBytes) (hsha256 : ∀ bytes, isSha256 (server.sha256 bytes))
  (hloads : server.loads (metadataText (artifactMetadata server path content)) = some (artifactMetadata server path content))

include hbytes hsha256

theorem finishes_returned (hoffset : offset < content.length) (hcomplete : Complete path content files')
    (h : Serves server path content offset files .waiting
      (files', some (.chunk (server.sha256 content) content.length content.length true))) :
    Finishes server path content files offset := by
  refine ⟨_, ⟨rfl, hcomplete.destination, ?_⟩, ends_returned hbytes hsha256 hoffset h⟩
  rintro sent hsent
  obtain rfl := List.mem_singleton.mp hsent
  exact ⟨_, rfl, chunkAt_end_le hoffset, Nat.le_refl _⟩

theorem finishes_sending (hoffset : offset < content.length)
    (hend : offset + (chunkAt content offset).length ≤ size) (hsize : size ≤ content.length)
    (h : Serves server path content offset files .waiting
      (files', some (.chunk (server.sha256 content) content.length size false)))
    (hacknowledge : acknowledge server content offset (.chunk (server.sha256 content) content.length size false) =
      .sending nextOffset)
    (hrest : Finishes server path content files' nextOffset) : Finishes server path content files offset := by
  obtain ⟨outcome, hreturned, hends⟩ := hrest
  have hafter := ends_sending hbytes hsha256 hoffset h hacknowledge hends
  refine ⟨_, ?_, hafter⟩
  refine ⟨hreturned.client, hreturned.files, ?_⟩
  intro sent hsent
  obtain rfl | hsent := List.mem_cons.mp hsent
  · exact ⟨size, rfl, hend, hsize⟩
  · exact hreturned.acknowledged sent hsent

include hloads

/-- The last chunk of a full partial file installs it. -/
theorem finishes_full (h : Uploading server path content files content.length) (hoffset : offset < content.length)
    (hend : offset + (chunkAt content offset).length = content.length) : Finishes server path content files offset := by
  obtain ⟨files', hcomplete, hserves⟩ := serves_totalling offset content.length h
  rw [← concluded_final hend] at hserves
  have hreplayed := serves_replaying h hoffset (Nat.le_of_eq hend) hserves
  exact finishes_returned hbytes hsha256 hoffset hcomplete (serves_uploading hloads h hreplayed)

/-- From the end of the partial file on, every chunk is appended. -/
theorem finishes_aligned (hoffset : offset < content.length) (h : Uploading server path content files offset)
    (hbegun : ∀ result, Serves server path content offset files .measuring result →
      Serves server path content offset files' .waiting result) : Finishes server path content files' offset := by
  induction hn : content.length - offset using Nat.strongRecOn generalizing offset files files' with
  | ind n ih =>
    subst hn
    have hpos := chunkAt_length_pos hoffset
    have hle := chunkAt_end_le hoffset
    obtain ⟨appended, happended, hserves⟩ := serves_appending h hoffset
    by_cases hend : offset + (chunkAt content offset).length = content.length
    · rw [hend] at happended
      obtain ⟨installed, hcomplete, hinstall⟩ := serves_totalling offset content.length happended
      rw [← concluded_final hend, ← hend] at hinstall
      rw [hend] at hserves hinstall
      refine finishes_returned hbytes hsha256 hoffset hcomplete (hbegun _ (hserves _ ?_))
      simpa only [hend] using hinstall
    · rw [concluded_early hend] at hserves
      have hlt : offset + (chunkAt content offset).length < content.length := by omega
      refine finishes_sending hbytes hsha256 hoffset (Nat.le_refl _) hle (hbegun _ (hserves _ serves_answering))
        (acknowledge_covered (Nat.le_refl _) hlt) ?_
      exact ih _ (by omega) hlt happended (fun result => serves_uploading hloads happended) rfl

/-- A partial file that holds the first chunk. -/
theorem finishes_covered (h : Uploading server path content files size) (hcontent : 0 < content.length)
    (hsize : min maxChunkBytes content.length ≤ size) : Finishes server path content files 0 := by
  have hlength : (chunkAt content 0).length = min maxChunkBytes content.length := length_chunkAt
  have hpos := maxChunkBytes_pos
  have hle := h.le
  by_cases hshort : content.length ≤ maxChunkBytes
  · obtain rfl : size = content.length := by omega
    exact finishes_full hbytes hsha256 hloads h hcontent (by omega)
  · have hend : 0 + (chunkAt content 0).length ≤ size := by omega
    have hreplayed : Serves server path content 0 files .waiting
        (files, some (.chunk (server.sha256 content) content.length size false)) := by
      apply serves_uploading hloads h
      apply serves_replaying h (by omega) hend
      rw [concluded_early (by omega)]
      exact serves_answering
    obtain rfl | hlt := Nat.eq_or_lt_of_le hle
    · refine finishes_sending hbytes hsha256 hcontent hend hle hreplayed (acknowledge_full hend) ?_
      refine finishes_full hbytes hsha256 hloads h (by omega) ?_
      rw [length_chunkAt]
      omega
    · refine finishes_sending hbytes hsha256 hcontent hend hle hreplayed (acknowledge_covered hend hlt) ?_
      exact finishes_aligned hbytes hsha256 hloads hlt h fun result => serves_uploading hloads h

theorem finishes_iff (hcontent : 0 < content.length) (h : Durable server path content files) :
    Finishes server path content files 0 ↔ Resumable path content files := by
  have hfails : ∀ files', Serves server path content 0 files .waiting (files', none) → ¬ Finishes server path content files 0 := by
    rintro files' hserves ⟨outcome, hreturned, bound, hbound⟩
    obtain ⟨bound', hfailed⟩ := ends_failed hbytes hsha256 hcontent hserves
    have hsame := (hbound _ (Nat.le_max_left bound bound')).symm.trans (hfailed _ (Nat.le_max_right bound bound'))
    cases hsame
    cases hreturned.client
  cases h with
  | @bare metadata h =>
    cases metadata with
    | none =>
      obtain ⟨files', huploading, hbegun⟩ := serves_fresh server content h
      exact iff_of_true (finishes_aligned hbytes hsha256 hloads hcontent huploading hbegun) (.inr (.inl h.metadata))
    | some text =>
      refine iff_of_false (hfails files (serves_bare h)) ?_
      simp [Resumable, h.destination, h.part, h.metadata]
  | @uploading size h =>
    have hlength : (content.take size).length = size := List.length_take_of_le h.le
    have hresumable : Resumable path content files ↔ size = 0 ∨ min maxChunkBytes content.length ≤ size := by
      constructor
      · rintro (hpath | hmetadata | ⟨durable, hdurable, hcovered⟩)
        · rw [h.destination] at hpath
          cases hpath
        · rw [h.metadata] at hmetadata
          cases hmetadata
        · rw [h.part] at hdurable
          cases hdurable
          rwa [hlength] at hcovered
      · intro hcovered
        exact .inr (.inr ⟨_, h.part, by rwa [hlength]⟩)
    rw [hresumable]
    by_cases hzero : size = 0
    · subst hzero
      exact iff_of_true (finishes_aligned hbytes hsha256 hloads hcontent h fun result => serves_uploading hloads h) (.inl rfl)
    · by_cases hcovered : min maxChunkBytes content.length ≤ size
      · exact iff_of_true (finishes_covered hbytes hsha256 hloads h hcontent hcovered) (.inr hcovered)
      · have hchunk : (chunkAt content 0).length = min maxChunkBytes content.length := length_chunkAt
        refine iff_of_false (hfails files (serves_uploading hloads h ?_)) (by omega)
        exact serves_short h (by omega) (by omega)
  | complete h =>
    refine iff_of_true (finishes_returned hbytes hsha256 hcontent h (serves_complete h)) (.inl ?_)
    rw [h.destination]
    rfl

end Finishing

/-- An upload that starts over, on whatever the earlier ones of the artifact have left, finishes exactly where they have left no
metadata without a partial file and no part of a first chunk. -/
theorem upload_resumes_iff {server : Server} {path : RelPath} {content : Bytes} {session : Session}
    {trace : List (Step Session SessionOp)} (hcontent : content ≠ []) (hbytes : content.length ≤ server.maxArtifactBytes)
    (hsha256 : ∀ bytes, isSha256 (server.sha256 bytes))
    (hloads : server.loads (metadataText (artifactMetadata server path content)) = some (artifactMetadata server path content))
    (h : Run (SessionNext server path content) newSession trace session) :
    (∃ outcome, outcome.Returned path content ∧ Ends server path content session.site.files 0 outcome) ↔
      Resumable path content session.site.files :=
  finishes_iff hbytes hsha256 hloads (List.length_pos_of_ne_nil hcontent) (durable_session h)

namespace Restart

def content : Bytes := [1, 2]

def path : RelPath := ⟨[], "result.fidb"⟩

def contentSha256 : String := "a12871fee210fb8619291eaea194581cbd2531e4b23759d225f6806923f63222"

def otherSha256 : String := "4bf5122f344554c53bde2ebb8cd2b7e3d1600ad631c385a5d7cce23c7785459a"

def metadata : Metadata := ⟨"result.fidb", contentSha256, 2⟩

def host : Server where
  maxArtifactBytes := 1024
  sha256 bytes := if bytes = content then contentSha256 else otherSha256
  loads text := if text = metadataText metadata then some metadata else none

theorem isSha256_host (bytes : Bytes) : isSha256 (host.sha256 bytes) := by
  dsimp only [host]
  split <;> decide

theorem artifactMetadata_eq : artifactMetadata host path content = metadata := by
  have htext : path.text = "result.fidb" := by decide
  have hsha256 : host.sha256 content = contentSha256 := by simp only [host, if_true]
  rw [artifactMetadata, htext, hsha256]
  rfl

theorem loads_metadata :
    host.loads (metadataText (artifactMetadata host path content)) = some (artifactMetadata host path content) := by
  rw [artifactMetadata_eq]
  simp only [host, if_true]

theorem content_accepted : host.Accepts (chunkRequest host path content 0) :=
  chunkRequest_accepted (by decide) isSha256_host (by decide)

/-- A call of the server while the client waits. -/
theorem run_snoc {trace : List (Step Session SessionOp)} {site site' : Site}
    (h : Run (SessionNext host path content) newSession trace ⟨site, .waiting 0 0⟩) (op : Op) (hop : op = .run 0 ∨ op = .acquire 0)
    (hn : Next host site op site') :
    Run (SessionNext host path content) newSession (trace ++ [⟨⟨site, .waiting 0 0⟩, .serve op, ⟨site', .waiting 0 0⟩⟩])
      ⟨site', .waiting 0 0⟩ := by
  refine h.snoc (.serve hn ?_ fun i offset _ hends => ?_)
  · obtain rfl | rfl := hop <;> rfl
  · obtain rfl | rfl := hop <;> cases hends

/-- The server is killed after the chunk is durable, and the next upload finishes. -/
theorem killed_resumes : ∃ trace session, Run (SessionNext host path content) newSession trace session ∧
    session.site.files path = none ∧
    ∃ outcome, outcome.Returned path content ∧ Ends host path content session.site.files 0 outcome := by
  have h : Run (SessionNext host path content) newSession [] newSession := .nil
  have h := h.snoc (show SessionNext host path content _ .begin _ from .begin (by decide))
  have h := h.snoc (show SessionNext host path content _ (.send 0) _ from .send rfl (by decide) (.arrive rfl content_accepted))
  have h := run_snoc h (.acquire 0) (.inr rfl) (.acquire rfl rfl fun j other hother hlocked => by
    obtain _ | j := j <;> cases hother
    exact (hlocked.2 rfl).elim)
  have h := run_snoc h (.run 0) (.inl rfl) (.run rfl rfl)
  have h := run_snoc h (.run 0) (.inl rfl) (.run rfl rfl)
  have h := run_snoc h (.run 0) (.inl rfl) (.run rfl rfl)
  have h := run_snoc h (.run 0) (.inl rfl) (.run rfl rfl)
  have h := run_snoc h (.run 0) (.inl rfl) (.run rfl rfl)
  have h := run_snoc h (.run 0) (.inl rfl) (.run rfl rfl)
  have h := run_snoc h (.run 0) (.inl rfl) (.run rfl rfl)
  have h := run_snoc h (.run 0) (.inl rfl) (.run rfl rfl)
  have h := h.snoc (show SessionNext host path content _ (.refuse (.kill 0)) _ from
    .refuse rfl (.kill rfl) rfl (by rintro ⟨⟩))
  refine ⟨_, _, h, rfl, ?_⟩
  refine (upload_resumes_iff (by decide) (by decide) isSha256_host loads_metadata h).mpr ?_
  exact .inr (.inr ⟨content, rfl, .inr (by decide)⟩)

/-- The server is killed after it has created the metadata file: the upload can not be resumed. -/
theorem killed_stuck : ∃ trace session, Run (SessionNext host path content) newSession trace session ∧
    ¬ ∃ outcome, outcome.Returned path content ∧ Ends host path content session.site.files 0 outcome := by
  have h : Run (SessionNext host path content) newSession [] newSession := .nil
  have h := h.snoc (show SessionNext host path content _ .begin _ from .begin (by decide))
  have h := h.snoc (show SessionNext host path content _ (.send 0) _ from .send rfl (by decide) (.arrive rfl content_accepted))
  have h := run_snoc h (.acquire 0) (.inr rfl) (.acquire rfl rfl fun j other hother hlocked => by
    obtain _ | j := j <;> cases hother
    exact (hlocked.2 rfl).elim)
  have h := run_snoc h (.run 0) (.inl rfl) (.run rfl rfl)
  have h := run_snoc h (.run 0) (.inl rfl) (.run rfl rfl)
  have h := run_snoc h (.run 0) (.inl rfl) (.run rfl rfl)
  have h := run_snoc h (.run 0) (.inl rfl) (.run rfl rfl)
  have h := h.snoc (show SessionNext host path content _ (.refuse (.kill 0)) _ from
    .refuse rfl (.kill rfl) rfl (by rintro ⟨⟩))
  refine ⟨_, _, h, fun hfinishes => ?_⟩
  have hresumable := (finishes_iff (by decide) isSha256_host loads_metadata (by decide) (durable_session h)).mp hfinishes
  obtain hpath | hmetadata | ⟨durable, hdurable, -⟩ := hresumable
  · cases hpath
  · cases hmetadata
  · cases hdurable

end Restart

end FidbPoc.Uploads
