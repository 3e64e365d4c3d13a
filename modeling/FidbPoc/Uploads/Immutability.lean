import FidbPoc.Uploads.Protocol

namespace FidbPoc.Uploads

open Lib

variable {server : Server} {site site' : Site} {files files' : Files} {h other : Handling} {phase : Phase} {op : Op}
  {p q : RelPath} {i : Nat} {content observed : Bytes}

section Calls

/-- The paths whose file a call may change. -/
def Action.touches : Action → RelPath → Prop
  | .append path _ _, q | .create path _, q | .touch path _, q | .unlink path _ _, q => q = path
  | .rename source destination _, q => q = source ∨ q = destination
  | .look .., _ | .acquire _, _ | .mkstemp _, _ | .answer _, _ | .raise, _ => False

/-- The files that are the request's own while it is under way. -/
def Handling.owns (h : Handling) (q : RelPath) : Prop :=
  h.phase.temporary = some q ∨ h.locked ∧ (q = h.request.path.partPath ∨ q = h.request.path.metadataPath)

theorem perform_files {action : Action} (hperform : perform files action = some (files', phase)) (q : RelPath) :
    files' q = files q ∨ action.touches q := by
  cases action with
  | look | acquire | mkstemp | answer | raise => simp_all [perform]
  | append path =>
    cases hperform
    by_cases hq : q = path
    · exact .inr hq
    · exact .inl (Function.update_of_ne hq _ _)
  | create path | touch path | unlink path =>
    by_cases hq : q = path
    · exact .inr hq
    · simp only [perform] at hperform
      split at hperform <;> cases hperform <;> simp [hq]
  | rename source destination =>
    by_cases hq : q = source ∨ q = destination
    · exact .inr hq
    · rw [not_or] at hq
      simp only [perform] at hperform
      split at hperform <;> cases hperform
      · exact .inl (by rw [Function.update_of_ne hq.2, Function.update_of_ne hq.1])
      · exact .inl rfl

/-- A call changes only the request's own files, but for the rename onto its destination. -/
theorem action_touches (htouches : (h.action server).touches q) :
    h.owns q ∨ q = h.request.path ∧ ∃ source next, h.action server = .rename source q next := by
  obtain ⟨⟨path, body⟩, phase⟩ := h
  cases body <;> cases phase <;>
    simp only [Handling.action, storeUpload, storeUploadChunk, Action.touches] at htouches
  all_goals first
    | exact htouches.elim
    | (left; simp [Handling.owns, Handling.locked, Phase.temporary, htouches]; done)
    | (obtain rfl | rfl := htouches
       · left; simp [Handling.owns, Handling.locked, Phase.temporary]
       · exact .inr ⟨rfl, _, _, rfl⟩)

/-- A rename moves one of the request's own files onto its destination. -/
theorem action_rename {source destination : RelPath} {next : Phase}
    (haction : h.action server = .rename source destination next) : h.owns source ∧ destination = h.request.path := by
  obtain ⟨⟨path, body⟩, phase⟩ := h
  cases body <;> cases phase <;> cases haction <;>
    simp [Handling.owns, Handling.locked, Phase.temporary]

theorem action_append_owns {next : Phase} (haction : h.action server = .append q content next) : h.owns q := by
  obtain ⟨⟨path, body⟩, phase⟩ := h
  cases body <;> cases phase <;> cases haction <;>
    simp [Handling.owns, Handling.locked, Phase.temporary]

theorem concluded_temporary {chunk : Chunk} {nextOffset : Nat} : (chunk.concluded nextOffset).temporary = none := by
  unfold Chunk.concluded
  split <;> rfl

theorem look_temporary {next : Option Bytes → Phase} (haction : h.action server = .look q next) (found : Option Bytes) :
    (next found).temporary = none := by
  obtain ⟨⟨path, body⟩, phase⟩ := h
  cases body <;> cases phase <;> cases haction
  all_goals
    beta_reduce
    repeat' split
  all_goals first
    | rfl
    | exact concluded_temporary

/-- The phase after a call that changes a file. -/
def Action.following : Action → Option Phase
  | .append _ _ next | .create _ next | .touch _ next | .rename _ _ next | .unlink _ _ next => some next
  | .look .. | .acquire _ | .mkstemp _ | .answer _ | .raise => none

theorem perform_phase {action : Action} (hperform : perform files action = some (files', phase)) :
    phase = .raising ∨ action.following = some phase ∨ ∃ path next found, action = .look path next ∧ phase = next found := by
  cases action with
  | look path next =>
    cases hperform
    exact .inr (.inr ⟨_, _, _, rfl, rfl⟩)
  | acquire | mkstemp | answer | raise => cases hperform
  | append =>
    cases hperform
    exact .inr (.inl rfl)
  | create | touch | rename =>
    simp only [perform] at hperform
    split at hperform <;> cases hperform
    · simp [Action.following]
    · simp [Action.following]
  | unlink path missingOk next =>
    simp only [perform] at hperform
    split at hperform
    · cases hperform
      exact .inr (.inl rfl)
    · cases hperform
      cases missingOk with
      | true => exact .inr (.inl rfl)
      | false => exact .inl rfl

theorem following_temporary {next : Phase} (hnext : (h.action server).following = some next) {temporary : RelPath}
    (htemporary : next.temporary = some temporary) : h.phase.temporary = some temporary := by
  obtain ⟨⟨path, body⟩, phase⟩ := h
  cases body <;> cases phase <;> cases hnext
  all_goals first
    | cases htemporary; rfl
    | cases htemporary
    | (rw [concluded_temporary] at htemporary; cases htemporary)

theorem perform_temporary (hperform : perform files (h.action server) = some (files', phase)) {temporary : RelPath}
    (htemporary : phase.temporary = some temporary) : h.phase.temporary = some temporary := by
  obtain rfl | hnext | ⟨path, next, found, haction, rfl⟩ := perform_phase hperform
  · cases htemporary
  · exact following_temporary hnext htemporary
  · rw [look_temporary haction] at htemporary
    cases htemporary

/-- No call makes a file the request's own. -/
theorem perform_owns (hperform : perform files (h.action server) = some (files', phase))
    (howns : Handling.owns ⟨h.request, phase⟩ q) : h.owns q := by
  obtain htemporary | ⟨⟨hchunk, -⟩, hq⟩ := howns
  · exact .inl (perform_temporary hperform htemporary)
  · refine .inr ⟨⟨hchunk, fun hwaiting => ?_⟩, hq⟩
    obtain ⟨chunk, hbody : h.request.body = .chunk chunk⟩ := hchunk
    simp [Handling.action, hbody, hwaiting, storeUploadChunk, perform] at hperform

end Calls

section Knowledge

/-- The file that a request has declared. -/
def Request.Declares (request : Request) (server : Server) (content : Bytes) : Prop :=
  match request.body with
  | .whole declared expectedSha256 => content.length = declared.length ∧ server.sha256 content = expectedSha256
  | .chunk chunk => content.length = chunk.artifactBytes ∧ server.sha256 content = chunk.artifactSha256

/-- What a request under way knows of the files. -/
def Known (server : Server) (files : Files) (h : Handling) : Prop :=
  match h.request.body, h.phase with
  | .whole .., .filling temporary => files temporary = some []
  | .whole content _, .replacing temporary => files temporary = some content
  | .whole content _, .cleaning _ => files h.request.path = some content
  | .chunk chunk, .verifying _ =>
    ∃ content, files h.request.path.partPath = some content ∧ content.length = chunk.artifactBytes
  | .chunk _, .installing _ => ∃ content, files h.request.path.partPath = some content ∧ h.request.Declares server content
  | .chunk _, .closing _ => ∃ content, files h.request.path = some content ∧ h.request.Declares server content
  | _, .answering answer => ∀ digest, answer.storedSha256 = some digest →
      ∃ content, files h.request.path = some content ∧ server.sha256 content = digest
  | _, _ => True

/-- What a request knows is of its own files and of its destination. -/
theorem Known.of_same (hknown : Known server files h) (howns : ∀ q, h.owns q → files' q = files q)
    (hpath : ∀ content, files h.request.path = some content → files' h.request.path = some content) :
    Known server files' h := by
  obtain ⟨⟨path, body⟩, phase⟩ := h
  cases body with
  | whole content =>
    cases phase with
    | filling temporary | replacing temporary => exact (howns temporary (.inl rfl)).trans hknown
    | cleaning => exact hpath _ hknown
    | answering =>
      intro digest hdigest
      obtain ⟨observed, hobserved, hsha⟩ := hknown digest hdigest
      exact ⟨observed, hpath _ hobserved, hsha⟩
    | _ => trivial
  | chunk chunk =>
    have hpart : ∀ phase, phase ≠ .waiting → Handling.owns ⟨⟨path, .chunk chunk⟩, phase⟩ path.partPath :=
      fun phase hphase => .inr ⟨⟨⟨chunk, rfl⟩, hphase⟩, .inl rfl⟩
    cases phase with
    | verifying | installing =>
      obtain ⟨content, hcontent, hrest⟩ := hknown
      exact ⟨content, (howns _ (hpart _ (by simp))).trans hcontent, hrest⟩
    | closing =>
      obtain ⟨content, hcontent, hrest⟩ := hknown
      exact ⟨content, hpath _ hcontent, hrest⟩
    | answering =>
      intro digest hdigest
      obtain ⟨observed, hobserved, hsha⟩ := hknown digest hdigest
      exact ⟨observed, hpath _ hobserved, hsha⟩
    | _ => trivial

/-- What is renamed onto a destination is what the request has declared. -/
theorem Known.renamed (hknown : Known server files h) (haccepted : server.Accepts h.request) {source destination : RelPath}
    {next : Phase} (haction : h.action server = .rename source destination next) (hsource : files source = some content) :
    h.request.Declares server content := by
  obtain ⟨⟨path, body⟩, phase⟩ := h
  cases body <;> cases phase <;> cases haction
  · cases hsource.symm.trans hknown
    exact ⟨rfl, haccepted.2.2⟩
  · obtain ⟨observed, hobserved, hdeclares⟩ := hknown
    cases hsource.symm.trans hobserved
    exact hdeclares

theorem known_concluded {chunk : Chunk} {nextOffset : Nat} :
    Known server files ⟨⟨p, .chunk chunk⟩, chunk.concluded nextOffset⟩ := by
  unfold Chunk.concluded
  split
  · trivial
  · intro digest hdigest
    cases hdigest

theorem Known.storeUpload (hknown : Known server files h) {expected : String} (hbody : h.request.body = .whole content expected)
    (hperform : perform files (h.action server) = some (files', phase))
    (hapart : ∀ q, h.owns q → q ≠ h.request.path) : Known server files' ⟨h.request, phase⟩ := by
  obtain ⟨⟨path, body⟩, before⟩ := h
  subst hbody
  cases before with
  | checking =>
    cases hperform
    dsimp only
    split <;> trivial
  | comparing =>
    cases hperform
    dsimp only
    split
    · rename_i hfound
      rw [Option.any_eq_true] at hfound
      obtain ⟨observed, hobserved, hsame⟩ := hfound
      rintro _ ⟨⟩
      exact ⟨observed, hobserved, of_decide_eq_true hsame⟩
    · trivial
  | filling temporary =>
    cases hperform
    have hempty : files temporary = some [] := hknown
    simp [Known, hempty]
  | replacing temporary =>
    have hcontent : files temporary = some content := hknown
    simp only [Handling.action, Uploads.storeUpload, Uploads.perform, hcontent] at hperform
    cases hperform
    simp [Known]
  | cleaning temporary =>
    have hcontent : files path = some content := hknown
    have hne : path ≠ temporary := (hapart temporary (.inl rfl)).symm
    simp only [Handling.action, Uploads.storeUpload, Uploads.perform] at hperform
    split at hperform <;> cases hperform <;> rintro _ ⟨⟩
    · exact ⟨content, by rw [Function.update_of_ne hne, hcontent], rfl⟩
    · exact ⟨content, hcontent, rfl⟩
  | _ => cases hperform

theorem Known.storeUploadChunk (hknown : Known server files h) {chunk : Chunk} (hbody : h.request.body = .chunk chunk)
    (hperform : perform files (h.action server) = some (files', phase))
    (hapart : ∀ q, h.owns q → q ≠ h.request.path) : Known server files' ⟨h.request, phase⟩ := by
  obtain ⟨⟨path, body⟩, before⟩ := h
  subst hbody
  cases before with
  | finding | seekingPart | seekingMetadata | partFile | metadataFile | readingMetadata =>
    cases hperform
    dsimp only
    repeat' split
    all_goals trivial
  | sizing | measuring =>
    cases hperform
    dsimp only
    repeat' split
    all_goals trivial
  | hashing size =>
    cases hperform
    dsimp only
    split
    · rename_i observed hobserved
      split
      · rintro _ ⟨⟩
        exact ⟨observed, hobserved, rfl⟩
      · trivial
    · trivial
  | creating | touching =>
    simp only [Handling.action, Uploads.storeUploadChunk, Uploads.perform] at hperform
    split at hperform <;> cases hperform <;> trivial
  | describing =>
    cases hperform
    trivial
  | replaying size =>
    cases hperform
    dsimp only
    split
    · exact known_concluded
    · trivial
  | appending =>
    cases hperform
    exact known_concluded
  | totalling nextOffset =>
    cases hperform
    dsimp only
    split
    · rename_i hfound
      rw [Option.any_eq_true] at hfound
      obtain ⟨durable, hdurable, hlength⟩ := hfound
      exact ⟨durable, hdurable, of_decide_eq_true hlength⟩
    · trivial
  | verifying nextOffset =>
    obtain ⟨content, hcontent, hlength⟩ := hknown
    cases hperform
    simp only [hcontent]
    split
    · rename_i hsame
      exact ⟨content, hcontent, hlength, hsame⟩
    · trivial
  | discarding | discardingMetadata =>
    simp only [Handling.action, Uploads.storeUploadChunk, Uploads.perform] at hperform
    split at hperform <;> cases hperform <;> trivial
  | installing nextOffset =>
    obtain ⟨content, hcontent, hdeclares⟩ := hknown
    simp only [Handling.action, Uploads.storeUploadChunk, Uploads.perform, hcontent] at hperform
    cases hperform
    exact ⟨content, by simp, hdeclares⟩
  | closing nextOffset =>
    obtain ⟨content, hcontent, hdeclares⟩ := hknown
    have hne : path ≠ path.metadataPath := (hapart _ (.inr ⟨⟨⟨chunk, rfl⟩, by simp⟩, .inr rfl⟩)).symm
    simp only [Handling.action, Uploads.storeUploadChunk, Uploads.perform] at hperform
    split at hperform <;> cases hperform
    · rintro _ ⟨⟩
      exact ⟨content, by rw [Function.update_of_ne hne, hcontent], hdeclares.2⟩
    · trivial
  | _ => cases hperform

/-- A request knows after its own call what the call has told it. -/
theorem Known.perform (hknown : Known server files h) (hperform : perform files (h.action server) = some (files', phase))
    (hapart : ∀ q, h.owns q → q ≠ h.request.path) : Known server files' ⟨h.request, phase⟩ := by
  cases hbody : h.request.body with
  | whole content expected => exact hknown.storeUpload hbody hperform hapart
  | chunk chunk => exact hknown.storeUploadChunk hbody hperform hapart

end Knowledge

section Keeping

variable {D : RelPath → Prop}

/-- What must hold of the step for a set of requested paths: every request names one of them, no partial, metadata or temporary
file of a request is one of them, and a file is renamed onto its destination only where no other file is. -/
def Apart (server : Server) (D : RelPath → Prop) (site : Site) : Op → Prop
  | .arrive _ request => D request.path ∧
      ∀ chunk, request.body = .chunk chunk → ¬ D request.path.partPath ∧ ¬ D request.path.metadataPath
  | .draw i suffix => ∀ h, site.handling i = some h → ¬ D (h.request.path.temporaryPath suffix)
  | .run i => ∀ h source destination next, site.handling i = some h → h.action server = .rename source destination next →
      site.files destination = none ∨ site.files destination = site.files source
  | _ => True

/-- What holds of a request under way. -/
structure Sound (D : RelPath → Prop) (server : Server) (site : Site) (i : Nat) (files : Files) (h : Handling) : Prop where
  accepted : h.request ∈ site.requests ∧ server.Accepts h.request ∧ D h.request.path
  apart : ∀ q, h.owns q → ¬ D q
  auxiliary : ∀ chunk, h.request.body = .chunk chunk → ¬ D h.request.path.partPath ∧ ¬ D h.request.path.metadataPath
  drawn : ∀ temporary, h.phase.temporary = some temporary →
    ∃ p suffix, isDrawn suffix = true ∧ temporary = RelPath.temporaryPath p suffix
  disjoint : ∀ j other, j ≠ i → site.handling j = some other → ∀ q, h.owns q → ¬ other.owns q
  known : Known server files h

/-- What the steps of such a run keep. -/
structure Kept (D : RelPath → Prop) (server : Server) (site : Site) : Prop where
  handling : ∀ i h, site.handling i = some h → Sound D server site i site.files h
  stored : ∀ entry ∈ site.stored, D entry.1 ∧ ∃ content, site.files entry.1 = some content ∧ server.sha256 content = entry.2
  declared : ∀ q content, D q → site.files q = some content →
    ∃ request ∈ site.requests, request.path = q ∧ request.Declares server content

theorem Sound.owns_ne_path (h : Sound D server site i files other) (hq : other.owns q) : q ≠ other.request.path := by
  rintro rfl
  exact h.apart _ hq h.accepted.2.2

/-- A step that leaves every requested file, and what the other requests own. -/
theorem Kept.update (hkept : Kept D server site) {new : Option Handling}
    (hstays : ∀ q content, D q → site.files q = some content → files' q = some content)
    (hother : ∀ j other, j ≠ i → site.handling j = some other → ∀ q, other.owns q → files' q = site.files q)
    (hdeclared : ∀ q content, D q → files' q = some content → site.files q = some content ∨
      ∃ request ∈ site.requests, request.path = q ∧ request.Declares server content)
    (hnew : ∀ h, new = some h → Sound D server site i files' h) :
    Kept D server { site with files := files', handling := Function.update site.handling i new } := by
  refine ⟨?_, ?_, ?_⟩
  · intro j h hj
    by_cases hji : j = i
    · subst hji
      simp only [Function.update_self] at hj
      obtain ⟨haccepted, hapart, hauxiliary, hdrawn, hdisjoint, hknown⟩ := hnew h hj
      refine ⟨haccepted, hapart, hauxiliary, hdrawn, ?_, hknown⟩
      intro k other hk hother
      simp only [Function.update_of_ne hk] at hother
      exact hdisjoint k other hk hother
    · simp only [Function.update_of_ne hji] at hj
      have hsound := hkept.handling j h hj
      refine ⟨hsound.accepted, hsound.apart, hsound.auxiliary, hsound.drawn, ?_, ?_⟩
      · intro k other hk hother q hq howns
        by_cases hki : k = i
        · subst hki
          simp only [Function.update_self] at hother
          exact (hnew other hother).disjoint j h hji hj q howns hq
        · simp only [Function.update_of_ne hki] at hother
          exact hsound.disjoint k other hk hother q hq howns
      · exact hsound.known.of_same (hother j h hji hj) fun content hcontent => hstays _ content hsound.accepted.2.2 hcontent
  · intro entry hentry
    obtain ⟨hpath, content, hcontent, hsha⟩ := hkept.stored entry hentry
    exact ⟨hpath, content, hstays _ content hpath hcontent, hsha⟩
  · intro q content hpath hcontent
    obtain hbefore | hrequest := hdeclared q content hpath hcontent
    · exact hkept.declared q content hpath hbefore
    · exact hrequest

/-- A step after which a request is gone, and which changes only that request's own files. -/
theorem Kept.release (hkept : Kept D server site) (hhandling : site.handling i = some h)
    (hfiles : ∀ q, files' q = site.files q ∨ h.owns q) :
    Kept D server { site with files := files', handling := Function.update site.handling i none } := by
  have hsound := hkept.handling i h hhandling
  have hrequested : ∀ q, D q → files' q = site.files q := fun q hq => (hfiles q).resolve_right fun howns => hsound.apart q howns hq
  refine hkept.update ?_ ?_ ?_ ?_
  · intro q content hq hcontent
    rw [hrequested q hq, hcontent]
  · intro j other hj hother q hq
    exact (hfiles q).resolve_right fun howns => hsound.disjoint j other hj hother q howns hq
  · intro q content hq hcontent
    rw [hrequested q hq] at hcontent
    exact .inl hcontent
  · intro h hnone
    cases hnone

theorem Kept.arrive (hkept : Kept D server site) {request : Request} (haccepted : server.Accepts request) (hpath : D request.path)
    (hauxiliary : ∀ chunk, request.body = .chunk chunk → ¬ D request.path.partPath ∧ ¬ D request.path.metadataPath) :
    Kept D server { site with
      handling := Function.update site.handling i (some ⟨request, request.start⟩)
      requests := site.requests ++ [request] } := by
  have hnone : ∀ q, ¬ Handling.owns ⟨request, request.start⟩ q := by
    obtain ⟨path, body⟩ := request
    cases body with
    | whole => rintro q (htemporary | ⟨⟨⟨chunk, hchunk⟩, -⟩, -⟩) <;> contradiction
    | chunk =>
      rintro q (htemporary | ⟨⟨-, hwaiting⟩, -⟩)
      · cases htemporary
      · exact hwaiting rfl
  have hlonger : Kept D server { site with requests := site.requests ++ [request] } := by
    refine ⟨?_, hkept.stored, ?_⟩
    · intro j h hj
      have hsound := hkept.handling j h hj
      exact ⟨⟨List.mem_append_left _ hsound.accepted.1, hsound.accepted.2⟩, hsound.apart, hsound.auxiliary, hsound.drawn,
        hsound.disjoint, hsound.known⟩
    · intro q content hq hcontent
      obtain ⟨request', hmem, hrest⟩ := hkept.declared q content hq hcontent
      exact ⟨request', List.mem_append_left _ hmem, hrest⟩
  refine hlonger.update (fun _ _ _ h => h) (fun _ _ _ _ _ _ => rfl) (fun _ _ _ h => .inl h) ?_
  rintro _ ⟨⟩
  refine ⟨⟨by simp, haccepted, hpath⟩, fun q hq => absurd hq (hnone q), hauxiliary, ?_, fun _ _ _ _ q hq => absurd hq (hnone q), ?_⟩
  · intro temporary htemporary
    exact absurd (.inl htemporary) (hnone temporary)
  · obtain ⟨path, body⟩ := request
    cases body <;> trivial

theorem rename_files {source : RelPath} {next : Phase} (hperform : perform files (.rename source q next) = some (files', phase)) :
    files' q = files q ∨ ∃ content, files source = some content ∧ files' q = some content := by
  simp only [perform] at hperform
  split at hperform <;> cases hperform
  · rename_i content hcontent
    exact .inr ⟨content, hcontent, Function.update_self ..⟩
  · exact .inl rfl

theorem Kept.run (hkept : Kept D server site) (hhandling : site.handling i = some h)
    (hperform : perform site.files (h.action server) = some (files', phase))
    (hapart : Apart server D site (.run i)) :
    Kept D server { site with files := files', handling := Function.update site.handling i (some { h with phase }) } := by
  have hsound := hkept.handling i h hhandling
  -- a requested path is written only by a rename
  have hwritten : ∀ q, D q → files' q = site.files q ∨ ∃ content source next, q = h.request.path ∧
      h.action server = .rename source q next ∧ site.files source = some content ∧ files' q = some content := by
    intro q hq
    obtain hsame | htouches := perform_files hperform q
    · exact .inl hsame
    obtain howns | ⟨hpath, source, next, haction⟩ := action_touches htouches
    · exact absurd hq (hsound.apart q howns)
    · rw [haction] at hperform
      obtain hsame | ⟨content, hsource, hafter⟩ := rename_files hperform
      · exact .inl hsame
      · exact .inr ⟨content, source, next, hpath, haction, hsource, hafter⟩
  refine hkept.update ?_ ?_ ?_ ?_
  · intro q content hq hcontent
    obtain hsame | ⟨moved, source, next, -, haction, hsource, hafter⟩ := hwritten q hq
    · rw [hsame, hcontent]
    · obtain hnone | hsame := hapart h source q next hhandling haction
      · cases hnone.symm.trans hcontent
      · rw [hafter, ← hsource, ← hsame, hcontent]
  · intro j other hj hother q hq
    obtain hsame | htouches := perform_files hperform q
    · exact hsame
    obtain howns | ⟨rfl, -⟩ := action_touches htouches
    · exact absurd hq (hsound.disjoint j other hj hother q howns)
    · exact absurd hsound.accepted.2.2 ((hkept.handling j other hother).apart _ hq)
  · intro q content hq hcontent
    obtain hsame | ⟨moved, source, next, hpath, haction, hsource, hafter⟩ := hwritten q hq
    · exact .inl (hsame ▸ hcontent)
    · cases hcontent.symm.trans hafter
      exact .inr ⟨h.request, hsound.accepted.1, hpath.symm, hsound.known.renamed hsound.accepted.2.1 haction hsource⟩
  · rintro _ ⟨⟩
    refine ⟨hsound.accepted, fun q hq => hsound.apart q (perform_owns hperform hq), hsound.auxiliary, ?_, ?_, ?_⟩
    · intro temporary htemporary
      exact hsound.drawn temporary (perform_temporary hperform htemporary)
    · intro j other hj hother q hq
      exact hsound.disjoint j other hj hother q (perform_owns hperform hq)
    · exact hsound.known.perform hperform fun q hq => hsound.owns_ne_path hq

theorem Kept.acquire (hkept : Kept D server site) (hhandling : site.handling i = some h)
    (haction : h.action server = .acquire phase)
    (hfree : ∀ j other, site.handling j = some other → other.locked → other.request.path ≠ h.request.path) :
    Kept D server { site with handling := Function.update site.handling i (some { h with phase }) } := by
  have hsound := hkept.handling i h hhandling
  have hphase : phase = .finding := by
    obtain ⟨⟨path, body⟩, before⟩ := h
    cases body <;> cases before <;> cases haction
    rfl
  subst hphase
  have howned : ∀ q, Handling.owns ⟨h.request, .finding⟩ q → (∃ chunk, h.request.body = .chunk chunk) ∧
      (q = h.request.path.partPath ∨ q = h.request.path.metadataPath) := by
    rintro q (htemporary | ⟨⟨hchunk, -⟩, hq⟩)
    · cases htemporary
    · exact ⟨hchunk, hq⟩
  refine hkept.update (fun _ _ _ h => h) (fun _ _ _ _ _ _ => rfl) (fun _ _ _ h => .inl h) ?_
  rintro _ ⟨⟩
  refine ⟨hsound.accepted, ?_, hsound.auxiliary, ?_, ?_, ?_⟩
  · intro q hq
    obtain ⟨⟨chunk, hchunk⟩, rfl | rfl⟩ := howned q hq
    · exact (hsound.auxiliary chunk hchunk).1
    · exact (hsound.auxiliary chunk hchunk).2
  · intro temporary htemporary
    cases htemporary
  · intro j other hj hother q hq hotherq
    obtain ⟨-, hq⟩ := howned q hq
    obtain htemporary | ⟨hlocked, hotherq⟩ := hotherq
    · obtain ⟨p, suffix, hdrawn, rfl⟩ := (hkept.handling j other hother).drawn q htemporary
      obtain heq | heq := hq
      · exact temporaryPath_ne_partPath hdrawn heq
      · exact temporaryPath_ne_metadataPath hdrawn heq
    · have hne := hfree j other hother hlocked
      obtain rfl | rfl := hq
      · obtain heq | heq := hotherq
        · exact hne (partPath_inj heq).symm
        · exact partPath_ne_metadataPath heq
      · obtain heq | heq := hotherq
        · exact partPath_ne_metadataPath heq.symm
        · exact hne (metadataPath_inj heq).symm
  · obtain ⟨⟨path, body⟩, before⟩ := h
    cases body <;> trivial

theorem Kept.draw (hkept : Kept D server site) (hhandling : site.handling i = some h) {next : RelPath → Phase} {suffix : String}
    (haction : h.action server = .mkstemp next) (hdrawn : isDrawn suffix)
    (hfree : site.files (h.request.path.temporaryPath suffix) = none)
    (hother : ∀ j other, site.handling j = some other →
      other.phase.temporary ≠ some (h.request.path.temporaryPath suffix))
    (hapart : ¬ D (h.request.path.temporaryPath suffix)) :
    Kept D server { site with
      files := Function.update site.files (h.request.path.temporaryPath suffix) (some [])
      handling := Function.update site.handling i (some { h with phase := next (h.request.path.temporaryPath suffix) }) } := by
  have hsound := hkept.handling i h hhandling
  obtain ⟨content, expected, hbody, hnext⟩ : ∃ content expected, h.request.body = .whole content expected ∧ next = .filling := by
    obtain ⟨⟨path, body⟩, before⟩ := h
    cases body <;> cases before <;> cases haction
    exact ⟨_, _, rfl, rfl⟩
  subst hnext
  generalize ht : h.request.path.temporaryPath suffix = t at *
  have hfresh : ∀ j other, site.handling j = some other → ¬ other.owns t := by
    rintro j other hj (htemporary | ⟨-, hq | hq⟩)
    · exact hother j other hj htemporary
    · exact temporaryPath_ne_partPath hdrawn (ht.trans hq)
    · exact temporaryPath_ne_metadataPath hdrawn (ht.trans hq)
  have howned : ∀ q, Handling.owns ⟨h.request, .filling t⟩ q → q = t := by
    rintro q (⟨⟨⟩⟩ | ⟨⟨⟨chunk, hchunk⟩, -⟩, -⟩)
    · rfl
    · cases hbody.symm.trans hchunk
  have hsame : ∀ q, q ≠ t → Function.update site.files t (some []) q = site.files q := fun q hq => Function.update_of_ne hq _ _
  refine hkept.update ?_ ?_ ?_ ?_
  · intro q content hq hcontent
    rw [hsame q (fun he => hapart (he ▸ hq)), hcontent]
  · intro j other _ hj q hq
    exact hsame q fun he => hfresh j other hj (he ▸ hq)
  · intro q content hq hcontent
    rw [hsame q (fun he => hapart (he ▸ hq))] at hcontent
    exact .inl hcontent
  · rintro _ ⟨⟩
    refine ⟨hsound.accepted, fun q hq => howned q hq ▸ hapart, hsound.auxiliary, ?_, ?_, ?_⟩
    · rintro _ ⟨⟩
      exact ⟨_, suffix, hdrawn, ht.symm⟩
    · intro j other _ hj q hq
      rw [howned q hq]
      exact hfresh j other hj
    · simp only [Known, hbody]
      exact Function.update_self ..

/-- Every step of such a run keeps it so. -/
theorem Kept.step (hkept : Kept D server site) (hn : Next server site op site') (hapart : Apart server D site op) :
    Kept D server site' := by
  cases hn with
  | arrive _ haccepted => exact hkept.arrive haccepted hapart.1 hapart.2
  | run hhandling hperform => exact hkept.run hhandling hperform hapart
  | acquire hhandling haction hfree => exact hkept.acquire hhandling haction hfree
  | draw hhandling haction hdrawn hfree hother => exact hkept.draw hhandling haction hdrawn hfree hother (hapart _ hhandling)
  | @answer i h answer hhandling haction =>
    have hreleased := hkept.release hhandling fun q => .inl rfl
    have hsound := hkept.handling i h hhandling
    have hphase : h.phase = .answering answer := by
      obtain ⟨⟨path, body⟩, phase⟩ := h
      cases body <;> cases phase <;> cases haction <;> rfl
    refine ⟨fun j h hj => ?_, ?_, hreleased.declared⟩
    · obtain ⟨haccepted, hapart, hauxiliary, hdrawn, hdisjoint, hknown⟩ := hreleased.handling j h hj
      exact ⟨haccepted, hapart, hauxiliary, hdrawn, hdisjoint, hknown⟩
    intro entry hentry
    obtain hentry | hentry := List.mem_append.mp hentry
    · exact hkept.stored entry hentry
    · simp only [Option.mem_toList, Option.map_eq_some_iff] at hentry
      obtain ⟨digest, hdigest, rfl⟩ := hentry
      refine ⟨hsound.accepted.2.2, ?_⟩
      have hknown := hsound.known
      obtain ⟨⟨path, body⟩, phase⟩ := h
      subst hphase
      cases body <;> exact hknown digest hdigest
  | raise hhandling | kill hhandling => exact hkept.release hhandling fun q => .inl rfl
  | @fail i h hhandling =>
    refine hkept.release hhandling fun q => ?_
    cases htemporary : h.phase.temporary with
    | none => exact .inl rfl
    | some t =>
      by_cases hq : q = t
      · exact .inr (.inl (hq ▸ htemporary))
      · exact .inl (Function.update_of_ne hq _ _)
  | @tear i written h path content next hhandling haction =>
    refine hkept.release hhandling fun q => ?_
    by_cases hq : q = path
    · exact .inr (hq ▸ action_append_owns haction)
    · exact .inl (Function.update_of_ne hq _ _)

theorem kept_initial : Kept D server initial := by
  refine ⟨?_, ?_, ?_⟩
  · intro i h hh
    cases hh
  · intro entry hentry
    cases hentry
  · intro q content _ hcontent
    cases hcontent

/-- What was answered as stored is not forgotten. -/
theorem stored_run {trace : List (Step Site Op)} (h : Run (Next server) site trace site') {entry : RelPath × String}
    (hentry : entry ∈ site.stored) : entry ∈ site'.stored := by
  refine h.invariant (P := fun s => entry ∈ s.stored) hentry ?_
  rintro ⟨before, op, after⟩ - hn hmem
  have hn : Next server before op after := hn
  cases hn with
  | answer => exact List.mem_append_left _ hmem
  | _ => exact hmem

/-- In a run with a set of requested paths, apart from the auxiliary files of its requests, what is answered as stored is there
with its digest from then on, and every file at a requested path is one that a request has declared. -/
theorem stored_immutable {before after : List (Step Site Op)} (h : Run (Next server) initial before site)
    (h' : Run (Next server) site after site') (hapart : ∀ st ∈ before ++ after, Apart server D st.before st.op) :
    (∀ entry ∈ site.stored, ∃ content, site'.files entry.1 = some content ∧ server.sha256 content = entry.2) ∧
    ∀ q content, D q → site'.files q = some content →
      ∃ request ∈ site'.requests, request.path = q ∧ request.Declares server content := by
  have hkept : Kept D server site' :=
    (h.append h').invariant kept_initial fun st hst hn hkept => hkept.step hn (hapart st hst)
  refine ⟨fun entry hentry => (hkept.stored entry (stored_run h' hentry)).2, hkept.declared⟩

end Keeping

namespace Race

def firstSha256 : String := "4bf5122f344554c53bde2ebb8cd2b7e3d1600ad631c385a5d7cce23c7785459a"

def secondSha256 : String := "dbc1b4c900ffe48d575b5da5c638040125f65db0fe3e24494b76ea986457d986"

def host : Server where
  maxArtifactBytes := 1024
  sha256 content := if content = [1] then firstSha256 else secondSha256
  loads _ := none

def path : RelPath := ⟨[], "result.fidb"⟩

def first : Request := ⟨path, .whole [1] firstSha256⟩

def second : Request := ⟨path, .whole [2] secondSha256⟩

def firstTemporary : RelPath := path.temporaryPath "aaaaaaaa"

def secondTemporary : RelPath := path.temporaryPath "bbbbbbbb"

theorem firstTemporary_ne : firstTemporary ≠ path := by decide

theorem secondTemporary_ne : secondTemporary ≠ firstTemporary := by decide

theorem first_accepted : host.Accepts first := ⟨by decide, by decide, rfl⟩

theorem second_accepted : host.Accepts second := ⟨by decide, by decide, rfl⟩

/-- One upload is stored. -/
theorem upload_stored : ∃ before site, Run (Next host) initial before site ∧ site.stored = [(path, firstSha256)] ∧
    ∃ content, site.files path = some content ∧ host.sha256 content = firstSha256 := by
  have h : Run (Next host) initial [] initial ∧ ∀ st ∈ ([] : List (Step Site Op)), Apart host (· = path) st.before st.op :=
    ⟨.nil, fun _ hst => (List.not_mem_nil hst).elim⟩
  have h := Run.snoc_all h (show Next host _ (.arrive 0 first) _ from .arrive rfl first_accepted)
    ⟨rfl, fun _ hchunk => by cases hchunk⟩
  have h := Run.snoc_all h (show Next host _ (.run 0) _ from .run rfl rfl) fun _ _ _ _ hh haction => by cases hh; cases haction
  have h := Run.snoc_all h (show Next host _ (.draw 0 "aaaaaaaa") _ from .draw rfl rfl (by decide) rfl fun j _ hother => by
    obtain _ | j := j <;> cases hother
    rintro ⟨⟩) fun _ hh => by cases hh; exact firstTemporary_ne
  have h := Run.snoc_all h (show Next host _ (.run 0) _ from .run rfl rfl) fun _ _ _ _ hh haction => by cases hh; cases haction
  have h := Run.snoc_all h (show Next host _ (.run 0) _ from .run rfl rfl) fun _ _ _ _ hh haction => by
    cases hh
    cases haction
    exact .inl rfl
  have h := Run.snoc_all h (show Next host _ (.run 0) _ from .run rfl rfl) fun _ _ _ _ hh haction => by cases hh; cases haction
  have h := Run.snoc_all h (show Next host _ (.answer 0) _ from .answer rfl rfl) trivial
  refine ⟨_, _, h.1, rfl, ?_⟩
  exact (stored_immutable h.1 .nil (by rw [List.append_nil]; exact h.2)).1 _ (List.mem_singleton_self _)

/-- Two uploads of different contents to one path: both find no file there, the first is answered as stored, and the second
replaces it. -/
theorem stored_replaced : ∃ before site, Run (Next host) initial before site ∧ site.stored = [(path, firstSha256)] ∧
    ∃ content, site.files path = some content ∧ host.sha256 content ≠ firstSha256 := by
  have h : Run (Next host) initial [] initial := .nil
  have h := h.snoc (show Next host _ (.arrive 0 first) _ from .arrive rfl first_accepted)
  have h := h.snoc (show Next host _ (.arrive 1 second) _ from .arrive rfl second_accepted)
  have h := h.snoc (show Next host _ (.run 0) _ from .run rfl rfl)
  have h := h.snoc (show Next host _ (.run 1) _ from .run rfl rfl)
  have h := h.snoc (show Next host _ (.draw 0 "aaaaaaaa") _ from .draw rfl rfl (by decide) rfl fun j _ hother => by
    obtain _ | _ | j := j <;> cases hother <;> rintro ⟨⟩)
  have h := h.snoc (show Next host _ (.draw 1 "bbbbbbbb") _ from .draw rfl rfl (by decide) rfl fun j _ hother => by
    obtain _ | _ | j := j <;> cases hother
    · exact fun htemporary => secondTemporary_ne (Option.some.inj htemporary).symm
    · rintro ⟨⟩)
  have h := h.snoc (show Next host _ (.run 0) _ from .run rfl rfl)
  have h := h.snoc (show Next host _ (.run 1) _ from .run rfl rfl)
  have h := h.snoc (show Next host _ (.run 0) _ from .run rfl rfl)
  have h := h.snoc (show Next host _ (.run 0) _ from .run rfl rfl)
  have h := h.snoc (show Next host _ (.answer 0) _ from .answer rfl rfl)
  have h := h.snoc (show Next host _ (.run 1) _ from .run rfl rfl)
  exact ⟨_, _, h, rfl, [2], rfl, by decide⟩

end Race

end FidbPoc.Uploads
