import Mathlib.Data.List.Infix
import Runscope.Database

/-!
The artifact stores (`storage.py`) and the download endpoint
(`download_artifact`).

The services behind the stores are available: only reading what is not there
fails. A store is built anew for every request, so the S3 store may have to
look for its bucket again at any time.
-/

namespace Runscope

/-- `ArtifactStore`, over the state `σ` of the services behind it. -/
structure ArtifactStore (σ : Type) where
  put : StorageKey → ByteArray → σ → Except Exc Unit × σ
  get : StorageKey → σ → Except Exc ByteArray × σ

def fileNotFoundError : Exc := .other "FileNotFoundError"

def clientError : Exc := .other "ClientError"

/-- A part of a path: the text of a run's id, or any other. -/
inductive PathPart where
  | run (id : Uuid)
  | text (chars : List Char)
  deriving DecidableEq

abbrev Path := List PathPart

/-- `pathlib` drops empty parts and `.`, and `resolve` goes up at `..`. -/
def Path.enter (path : Path) (part : PathPart) : Path :=
  if part = .text [] ∨ part = .text ['.'] then path
  else if part = .text ['.', '.'] then path.dropLast
  else path ++ [part]

/-- The parts of `f"{run_id}/{name}"`. -/
def keyParts (key : StorageKey) : Path :=
  .run key.1 :: (key.2.toList.splitOn '/').map .text

/-- The files written, in order; the bucket of the S3 service with its
objects, if it exists; and whether the store has seen the bucket. -/
structure ArtifactServices where
  files : List (Path × ByteArray)
  bucket : Option (List (StorageKey × ByteArray))
  bucketReady : Bool

/-! ### `LocalArtifactStore` -/

/-- `_path`; the root is resolved. -/
def localPath (root : Path) (key : StorageKey) : Except Exc Path :=
  let target := (keyParts key).foldl Path.enter root
  if root.isPrefixOf target ∧ root ≠ target then .ok target
  else .error (.other "ValueError")

def localArtifactStore (root : Path) : ArtifactStore ArtifactServices where
  put key data s :=
    match localPath root key with
    | .error e => (.error e, s)
    | .ok target => (.ok (), { s with files := s.files ++ [(target, data)] })
  get key s :=
    match localPath root key with
    | .error e => (.error e, s)
    | .ok target =>
      match lastWritten s.files target with
      | some data => (.ok data, s)
      | none => (.error fileNotFoundError, s)

/-! ### `S3ArtifactStore` -/

/-- `_ensure_bucket`: `head_bucket` fails where there is none, and then it is
created. -/
def ensureBucket (s : ArtifactServices) : ArtifactServices :=
  if s.bucketReady then s else { s with bucket := some (s.bucket.getD []), bucketReady := true }

def s3ArtifactStore : ArtifactStore ArtifactServices where
  put key data s :=
    let s := ensureBucket s
    match s.bucket with
    | some objects => (.ok (), { s with bucket := some (objects ++ [(key, data)]) })
    | none => (.error clientError, s)
  get key s :=
    let s := ensureBucket s
    match s.bucket.bind fun objects => lastWritten objects key with
    | some data => (.ok data, s)
    | none => (.error clientError, s)

/-! ### `RetryingArtifactStore` -/

def retryError (operation : String) (maxAttempts : ℕ) : Exc :=
  .artifactStorage s!"Artifact {operation} failed after {maxAttempts} attempts"

/-- `_retry` with `attempts` of `maxAttempts` left. -/
def retry {σ α : Type} (maxAttempts : ℕ) (operation : String) (call : σ → Except Exc α × σ) :
    ℕ → σ → Except Exc α × σ
  | 0, s => (.error (retryError operation maxAttempts), s)
  | attempts + 1, s =>
    match call s with
    | (.ok a, s) => (.ok a, s)
    | (.error _, s) => retry maxAttempts operation call attempts s

def retryingArtifactStore {σ : Type} (store : ArtifactStore σ) (maxAttempts : ℕ) :
    ArtifactStore σ where
  put key data := retry maxAttempts "upload" (store.put key data) maxAttempts
  get key := retry maxAttempts "download" (store.get key) maxAttempts

structure ArtifactSettings where
  artifactBackend : String
  localArtifactDir : Path
  storageMaxAttempts : ℕ
  storageMaxAttempts_pos : 1 ≤ storageMaxAttempts

def buildArtifactStore (settings : ArtifactSettings) :
    Except Exc (ArtifactStore ArtifactServices) :=
  if settings.artifactBackend = "local" then
    .ok (localArtifactStore settings.localArtifactDir)
  else if settings.artifactBackend = "s3" then
    .ok (retryingArtifactStore s3ArtifactStore settings.storageMaxAttempts)
  else .error (.runtime s!"Unsupported artifact backend: {settings.artifactBackend}")

/-! ### `download_artifact` -/

structure DownloadResponse where
  content : ByteArray
  mediaType : String
  contentDisposition : String
  deriving DecidableEq

def artifactNotFound : AppError where
  code := "artifact_not_found"
  message := "Artifact was not found"
  statusCode := 404
  details := []

def contentMissing : AppError where
  code := "artifact_content_missing"
  message := "Artifact metadata exists, but its content is unavailable"
  statusCode := 410
  details := []

def safeName (name : String) : String :=
  String.ofList (name.toList.filter fun c => c ∉ ['"', '\r', '\n'])

/-- `s.encode("latin-1")` does not fail. -/
def encodable (s : String) : Bool := s.toList.all fun c => c.toNat < 256

/-- What the endpoint returns. -/
def Artifact.attachment (artifact : Artifact) (content : ByteArray) : DownloadResponse where
  content := content
  mediaType := artifact.mimeType
  contentDisposition := s!"attachment; filename=\"{safeName artifact.name}\""

/-- `Response(…)` encodes the headers. -/
def DownloadResponse.init (response : DownloadResponse) : Except Exc DownloadResponse :=
  if encodable response.contentDisposition ∧ encodable response.mediaType then .ok response
  else .error (.other "UnicodeEncodeError")

/-- The row the endpoint selects, from the rows with their ids. -/
def selectArtifact (rows : List (Uuid × Artifact)) (runId artifactId : Uuid) : Option Artifact :=
  (rows.find? fun x => x.1 = artifactId ∧ x.2.runId = runId).map Prod.snd

def downloadArtifact {σ : Type} (rows : List (Uuid × Artifact)) (runId artifactId : Uuid)
    (store : ArtifactStore σ) (s : σ) : Except Exc DownloadResponse :=
  match selectArtifact rows runId artifactId with
  | none => .error (.app artifactNotFound)
  | some artifact =>
    match (store.get artifact.storageKey s).1 with
    | .ok content => (artifact.attachment content).init
    | .error e => if e = fileNotFoundError then .error (.app contentMissing) else .error e

/-! ### Histories -/

/-- An upload, by a store that has just been built or by the one before it. -/
structure Upload where
  key : StorageKey
  data : ByteArray
  rebuilt : Bool

/-- A new store knows of no bucket. -/
def ArtifactServices.rebuild (s : ArtifactServices) : ArtifactServices :=
  { s with bucketReady := false }

/-- The uploads, one after another. -/
def ArtifactStore.upload (store : ArtifactStore ArtifactServices) (s : ArtifactServices)
    (history : List Upload) : ArtifactServices :=
  history.foldl (fun s u => (store.put u.key u.data (if u.rebuilt then s.rebuild else s)).2) s

/-- Nothing has been uploaded; the bucket may exist. -/
def ArtifactServices.empty (bucketExists : Bool) : ArtifactServices :=
  ⟨[], if bucketExists then some [] else none, false⟩

/-- What is uploaded last under a key. -/
def lastUpload (history : List Upload) (key : StorageKey) : Option ByteArray :=
  lastWritten (history.map fun u => (u.key, u.data)) key

/-- The keys of this system: below the run's directory, under a file name. -/
def RunScoped (key : StorageKey) : Prop :=
  key.2.toList ∉ [[], ['.'], ['.', '.']] ∧ '/' ∉ key.2.toList

/-- What the endpoint owes: the last upload, or a structured 410. -/
def owedDownload (rows : List (Uuid × Artifact)) (runId artifactId : Uuid)
    (history : List Upload) : Except Exc DownloadResponse :=
  match selectArtifact rows runId artifactId with
  | none => .error (.app artifactNotFound)
  | some artifact =>
    match lastUpload history artifact.storageKey with
    | some content => .ok (artifact.attachment content)
    | none => .error (.app contentMissing)

/-! ### What was written last -/

section LastWritten

variable {κ κ' : Type} [DecidableEq κ] [DecidableEq κ']

/-- Renaming keys without a clash does not change what was written last. -/
theorem lastWritten_map (f : κ → κ') (objects : List (κ × ByteArray)) (k : κ)
    (hf : ∀ x ∈ objects, f k = f x.1 → k = x.1) :
    lastWritten (objects.map fun x => (f x.1, x.2)) (f k) = lastWritten objects k := by
  induction objects using List.reverseRecOn with
  | nil => rfl
  | append_singleton objects x ih =>
      have hx := hf x (by simp)
      rw [List.map_append, List.map_singleton, lastWritten_append,
        ih fun y hy => hf y (by simp [hy]),
        show objects ++ [x] = objects ++ [(x.1, x.2)] from rfl, lastWritten_append]
      by_cases h : k = x.1
      · rw [if_pos h, if_pos (h ▸ rfl)]
      · rw [if_neg h, if_neg fun heq => h (hx heq)]

theorem lastWritten_eq_none {objects : List (κ × ByteArray)} {k : κ} :
    lastWritten objects k = none ↔ ∀ x ∈ objects, x.1 ≠ k := by
  rw [lastWritten, List.lookup_eq_none_iff]
  exact ⟨fun h x hx heq => bne_iff_ne.mp (h x (List.mem_reverse.mpr hx)) heq.symm,
    fun h x hx => bne_iff_ne.mpr fun heq => h x (List.mem_reverse.mp hx) heq.symm⟩

end LastWritten

/-! ### The local store -/

/-- Where the local store keeps a key of this system. -/
def target (root : Path) (key : StorageKey) : Path :=
  root ++ [.run key.1, .text key.2.toList]

theorem target_injective (root : Path) : Function.Injective (target root) := by
  rintro ⟨r, name⟩ ⟨r', name'⟩ h
  have h := List.append_cancel_left h
  simp only [List.cons.injEq, PathPart.run.injEq, PathPart.text.injEq, and_true] at h
  obtain ⟨rfl, hname⟩ := h
  rw [String.toList_injective hname]

theorem localPath_of_runScoped {key : StorageKey} (h : RunScoped key) (root : Path) :
    localPath root key = .ok (target root key) := by
  obtain ⟨hname, hslash⟩ := h
  have hparts : keyParts key = [.run key.1, .text key.2.toList] := by
    rw [keyParts, List.splitOn_eq_splitOnP, List.splitOnP_eq_singleton]
    · rfl
    · intro c hc
      exact beq_eq_false_iff_ne.mpr fun heq => hslash (heq ▸ hc)
  have htarget : (keyParts key).foldl Path.enter root = target root key := by
    simp only [List.mem_cons, List.not_mem_nil, or_false, not_or] at hname
    simp [hparts, Path.enter, target, hname]
  rw [localPath, htarget, if_pos]
  simp [target]

theorem upload_local (root : Path) (s : ArtifactServices) {history : List Upload}
    (h : ∀ u ∈ history, RunScoped u.key) :
    ((localArtifactStore root).upload s history).files =
      s.files ++ history.map fun u => (target root u.key, u.data) := by
  induction history generalizing s with
  | nil => simp [ArtifactStore.upload]
  | cons u history ih =>
      have hput (s : ArtifactServices) : ((localArtifactStore root).put u.key u.data s).2 =
          { s with files := s.files ++ [(target root u.key, u.data)] } := by
        simp [localArtifactStore, localPath_of_runScoped (h u (by simp))]
      have hfiles : (if u.rebuilt then s.rebuild else s).files = s.files := by split <;> rfl
      have hrest := ih ((localArtifactStore root).put u.key u.data
        (if u.rebuilt then s.rebuild else s)).2 fun u hu => h u (by simp [hu])
      rw [ArtifactStore.upload, List.foldl_cons, ← ArtifactStore.upload, hrest, hput]
      simp [hfiles]

theorem get_localArtifactStore (root : Path) {key : StorageKey} (h : RunScoped key)
    (s : ArtifactServices) : ((localArtifactStore root).get key s).1 =
      match lastWritten s.files (target root key) with
      | some data => .ok data
      | none => .error fileNotFoundError := by
  simp only [localArtifactStore, localPath_of_runScoped h]
  cases lastWritten s.files (target root key) <;> rfl

/-- The local store returns what was uploaded last. -/
theorem get_local (root : Path) {history : List Upload} (h : ∀ u ∈ history, RunScoped u.key)
    {key : StorageKey} (hkey : RunScoped key) {s : ArtifactServices} (hs : s.files = []) :
    ((localArtifactStore root).get key ((localArtifactStore root).upload s history).rebuild).1 =
      match lastUpload history key with
      | some data => .ok data
      | none => .error fileNotFoundError := by
  have hlast : lastWritten ((localArtifactStore root).upload s history).files (target root key) =
      lastUpload history key := by
    have hmap := lastWritten_map (target root) (history.map fun u => (u.key, u.data)) key
      fun x _ heq => target_injective root heq
    rw [upload_local root s h, hs, lastUpload, ← hmap, List.map_map]
    rfl
  rw [get_localArtifactStore root hkey, ← hlast]
  rfl

/-! ### The S3 store -/

/-- The store has seen no bucket that is not there. -/
def ArtifactServices.Sighted (s : ArtifactServices) : Prop := s.bucketReady → s.bucket.isSome

theorem ArtifactServices.Sighted.ensureBucket {s : ArtifactServices} (h : s.Sighted) :
    ensureBucket s = { s with bucket := some (s.bucket.getD []), bucketReady := true } := by
  unfold Runscope.ensureBucket
  split
  case isTrue hready =>
    obtain ⟨objects, hobjects⟩ := Option.isSome_iff_exists.mp (h hready)
    obtain ⟨files, bucket, bucketReady⟩ := s
    simp_all
  case isFalse => rfl

theorem ensureBucket_ready {s : ArtifactServices} (h : s.bucketReady) : ensureBucket s = s :=
  if_pos h

/-- The first attempt succeeds. -/
theorem put_s3 {s : ArtifactServices} (hs : s.Sighted) (key : StorageKey) (data : ByteArray)
    {maxAttempts : ℕ} (hmax : 1 ≤ maxAttempts) :
    ((retryingArtifactStore s3ArtifactStore maxAttempts).put key data s).2 =
      { s with bucket := some (s.bucket.getD [] ++ [(key, data)]), bucketReady := true } := by
  obtain ⟨attempts, rfl⟩ := Nat.exists_eq_add_of_le' hmax
  simp only [retryingArtifactStore, retry, s3ArtifactStore, hs.ensureBucket]

/-- Every attempt fails. -/
theorem retry_of_fails {σ α : Type} {call : σ → Except Exc α × σ} {s : σ} {e : Exc}
    (h : call s = (.error e, s)) (maxAttempts : ℕ) (operation : String) (attempts : ℕ) :
    retry maxAttempts operation call attempts s =
      (.error (retryError operation maxAttempts), s) := by
  induction attempts with
  | zero => rfl
  | succ attempts ih =>
      rw [retry, h]
      exact ih

theorem get_retrying {s : ArtifactServices} (hs : s.Sighted) (key : StorageKey) {maxAttempts : ℕ}
    (hmax : 1 ≤ maxAttempts) :
    ((retryingArtifactStore s3ArtifactStore maxAttempts).get key s).1 =
      match lastWritten (s.bucket.getD []) key with
      | some data => .ok data
      | none => .error (retryError "download" maxAttempts) := by
  obtain ⟨attempts, rfl⟩ := Nat.exists_eq_add_of_le' hmax
  have hget : s3ArtifactStore.get key s =
      (match lastWritten (s.bucket.getD []) key with
        | some data => .ok data
        | none => .error clientError,
      { s with bucket := some (s.bucket.getD []), bucketReady := true }) := by
    simp only [s3ArtifactStore, hs.ensureBucket, Option.bind_some]
    cases lastWritten (s.bucket.getD []) key <;> rfl
  cases hlast : lastWritten (s.bucket.getD []) key with
  | some data => simp [retryingArtifactStore, retry, hget, hlast]
  | none =>
      have hagain : s3ArtifactStore.get key
          { s with bucket := some (s.bucket.getD []), bucketReady := true } =
          (.error clientError, { s with bucket := some (s.bucket.getD []), bucketReady := true }) := by
        simp [s3ArtifactStore, ensureBucket_ready, hlast]
      simp only [retryingArtifactStore, retry, hget, hlast]
      rw [retry_of_fails hagain]

theorem upload_s3 {s : ArtifactServices} (hs : s.Sighted) (history : List Upload) {maxAttempts : ℕ}
    (hmax : 1 ≤ maxAttempts) :
    (((retryingArtifactStore s3ArtifactStore maxAttempts).upload s history).bucket.getD [] =
      s.bucket.getD [] ++ history.map fun u => (u.key, u.data)) ∧
      ((retryingArtifactStore s3ArtifactStore maxAttempts).upload s history).Sighted := by
  induction history generalizing s with
  | nil => exact ⟨by simp [ArtifactStore.upload], hs⟩
  | cons u history ih =>
      have hopen : (if u.rebuilt then s.rebuild else s).Sighted := by
        split
        · exact nofun
        · exact hs
      have hbucket : (if u.rebuilt then s.rebuild else s).bucket = s.bucket := by split <;> rfl
      have hput := put_s3 hopen u.key u.data hmax
      obtain ⟨hrest, hsighted⟩ := @ih
        ((retryingArtifactStore s3ArtifactStore maxAttempts).put u.key u.data
          (if u.rebuilt then s.rebuild else s)).2 (by rw [hput]; exact fun _ => rfl)
      rw [ArtifactStore.upload, List.foldl_cons, ← ArtifactStore.upload]
      refine ⟨?_, hsighted⟩
      rw [hrest, hput]
      simp [hbucket]

/-- The S3 store returns what was uploaded last; where there is nothing, it
gives up after all attempts. -/
theorem get_s3 (history : List Upload) (key : StorageKey) {s : ArtifactServices}
    (hs : s.bucket.getD [] = []) (hsighted : s.Sighted) {maxAttempts : ℕ}
    (hmax : 1 ≤ maxAttempts) :
    ((retryingArtifactStore s3ArtifactStore maxAttempts).get key
      ((retryingArtifactStore s3ArtifactStore maxAttempts).upload s history).rebuild).1 =
      match lastUpload history key with
      | some data => .ok data
      | none => .error (retryError "download" maxAttempts) := by
  obtain ⟨hbucket, -⟩ := upload_s3 hsighted history hmax
  have hlast : lastWritten (((retryingArtifactStore s3ArtifactStore maxAttempts).upload s
      history).bucket.getD []) key = lastUpload history key := by
    rw [hbucket, hs, List.nil_append]
    rfl
  have hrebuilt : ((retryingArtifactStore s3ArtifactStore maxAttempts).upload s
      history).rebuild.Sighted := fun h => absurd h Bool.false_ne_true
  rw [get_retrying hrebuilt key hmax, ← hlast]
  rfl

/-! ### The endpoint -/

/-- The response over the services as the uploads left them. -/
def downloadAfter (rows : List (Uuid × Artifact)) (runId artifactId : Uuid)
    (store : ArtifactStore ArtifactServices) (bucketExists : Bool) (history : List Upload) :
    Except Exc DownloadResponse :=
  downloadArtifact rows runId artifactId store (store.upload (.empty bucketExists) history).rebuild

theorem buildArtifactStore_local {settings : ArtifactSettings}
    {store : ArtifactStore ArtifactServices} (hlocal : settings.artifactBackend = "local")
    (h : buildArtifactStore settings = .ok store) :
    store = localArtifactStore settings.localArtifactDir := by
  rw [buildArtifactStore, if_pos hlocal] at h
  exact (Except.ok.inj h).symm

theorem buildArtifactStore_s3 {settings : ArtifactSettings} {store : ArtifactStore ArtifactServices}
    (hs3 : settings.artifactBackend = "s3") (h : buildArtifactStore settings = .ok store) :
    store = retryingArtifactStore s3ArtifactStore settings.storageMaxAttempts := by
  have hlocal : settings.artifactBackend ≠ "local" := by
    rw [hs3]
    decide
  rw [buildArtifactStore, if_neg hlocal, if_pos hs3] at h
  exact (Except.ok.inj h).symm

/-- The characters that are left out of the name can be encoded. -/
theorem encodable_contentDisposition (artifact : Artifact) (content : ByteArray) :
    encodable (artifact.attachment content).contentDisposition = encodable artifact.name := by
  have hdropped : ∀ c ∈ ['"', '\r', '\n'], c.toNat < 256 := by simp
  have hopen : encodable "attachment; filename=\"" := by decide
  have happend (s t : String) : encodable (s ++ t) = (encodable s && encodable t) := by
    simp [encodable]
  have hsafe : encodable (safeName artifact.name) = encodable artifact.name := by
    rw [Bool.eq_iff_iff, encodable, encodable, safeName, String.toList_ofList, List.all_eq_true,
      List.all_eq_true]
    refine ⟨fun h c hc => ?_, fun h c hc => h c (List.mem_of_mem_filter hc)⟩
    by_cases hkept : c ∈ ['"', '\r', '\n']
    · exact decide_eq_true (hdropped c hkept)
    · exact h c (List.mem_filter.mpr ⟨hc, decide_eq_true hkept⟩)
  have hclose : encodable "\"" := by decide
  have htext : (artifact.attachment content).contentDisposition =
      "attachment; filename=\"" ++ safeName artifact.name ++ "\"" := rfl
  rw [htext, happend, happend, hsafe, hopen, hclose, Bool.true_and, Bool.and_true]

theorem init_attachment (artifact : Artifact) (content : ByteArray) :
    (artifact.attachment content).init = .ok (artifact.attachment content) ↔
      encodable artifact.name ∧ encodable artifact.mimeType := by
  rw [DownloadResponse.init, encodable_contentDisposition,
    show (artifact.attachment content).mediaType = artifact.mimeType from rfl]
  split <;> simp_all

theorem exists_upload {history : List Upload} {key : StorageKey} :
    (∃ u ∈ history, u.key = key) ↔ lastUpload history key ≠ none := by
  rw [lastUpload, Ne, lastWritten_eq_none]
  simp

/-- Both backends give the owed response just if the artifact's key has content
and its name and type fit into the headers. -/
theorem backends_interchangeable {localSettings s3Settings : ArtifactSettings}
    (hlocal : localSettings.artifactBackend = "local") (hs3 : s3Settings.artifactBackend = "s3")
    {localStore s3Store : ArtifactStore ArtifactServices}
    (hlocalStore : buildArtifactStore localSettings = .ok localStore)
    (hs3Store : buildArtifactStore s3Settings = .ok s3Store) (bucketExists : Bool)
    (rows : List (Uuid × Artifact)) {history : List Upload}
    (hhistory : ∀ u ∈ history, RunScoped u.key) (runId artifactId : Uuid) :
    (downloadAfter rows runId artifactId localStore bucketExists history =
        owedDownload rows runId artifactId history ∧
      downloadAfter rows runId artifactId s3Store bucketExists history =
        owedDownload rows runId artifactId history) ↔
      ∀ artifact, selectArtifact rows runId artifactId = some artifact →
        (∃ u ∈ history, u.key = artifact.storageKey) ∧ encodable artifact.name ∧
          encodable artifact.mimeType := by
  obtain rfl := buildArtifactStore_local hlocal hlocalStore
  obtain rfl := buildArtifactStore_s3 hs3 hs3Store
  unfold downloadAfter downloadArtifact owedDownload
  cases hselect : selectArtifact rows runId artifactId with
  | none => simp
  | some artifact =>
  have hempty : (ArtifactServices.empty bucketExists).bucket.getD [] = [] := by
    cases bucketExists <;> rfl
  have hs3Get := get_s3 history artifact.storageKey hempty (fun h => absurd h Bool.false_ne_true)
    s3Settings.storageMaxAttempts_pos
  simp only [Option.some.injEq, forall_eq', exists_upload]
  cases hlast : lastUpload history artifact.storageKey with
  | none =>
      rw [hlast] at hs3Get
      simp [hs3Get, retryError, fileNotFoundError]
  | some content =>
      have hkey : RunScoped artifact.storageKey := by
        obtain ⟨u, hu, heq⟩ := exists_upload.mpr (hlast ▸ Option.some_ne_none content)
        exact heq ▸ hhistory u hu
      have hlocalGet := get_local localSettings.localArtifactDir hhistory hkey
        (s := .empty bucketExists) rfl
      rw [hlast] at hs3Get hlocalGet
      simp only [hs3Get, hlocalGet, init_attachment, and_self, ne_eq, reduceCtorEq,
        not_false_eq_true, true_and]

namespace Demo

/-- The row of a slow run's artifact. -/
def progressRow : Artifact where
  runId := 3
  name := "progress.json"
  storageKey := (3, "progress.json")
  mimeType := "application/json"
  sizeBytes := 1
  checksum := "abcd"

def localSettings : ArtifactSettings := ⟨"local", [], 3, by decide⟩

def s3Settings : ArtifactSettings := ⟨"s3", [], 3, by decide⟩

theorem runScoped_progress : RunScoped progressRow.storageKey := by
  constructor <;> decide

/-- The same artifact under a name with a character beyond latin-1. -/
def courseRow : Artifact :=
  { progressRow with name := "run ①.json", storageKey := (3, "run ①.json") }

end Demo

/-- Where no content exists, the S3 store's endpoint reports a storage error
instead of the missing content; and content under a name that does not fit into
the header is not returned. -/
theorem backends_differ :
    downloadAfter [(9, Demo.progressRow)] 3 9 (localArtifactStore []) true [] =
        .error (.app contentMissing) ∧
      downloadAfter [(9, Demo.progressRow)] 3 9 (retryingArtifactStore s3ArtifactStore 3) true [] =
        .error (retryError "download" 3) ∧
      downloadAfter [(9, Demo.courseRow)] 3 9 (localArtifactStore []) true
          [⟨(3, "run ①.json"), ⟨#[1]⟩, true⟩] = .error (.other "UnicodeEncodeError") := by
  refine ⟨rfl, rfl, ?_⟩
  rfl

/-- The content is there. -/
theorem backends_interchangeable_uploaded :
    downloadAfter [(9, Demo.progressRow)] 3 9 (localArtifactStore []) true
          [⟨(3, "progress.json"), ⟨#[1]⟩, true⟩] =
        owedDownload [(9, Demo.progressRow)] 3 9 [⟨(3, "progress.json"), ⟨#[1]⟩, true⟩] ∧
      downloadAfter [(9, Demo.progressRow)] 3 9 (retryingArtifactStore s3ArtifactStore 3) true
          [⟨(3, "progress.json"), ⟨#[1]⟩, true⟩] =
        owedDownload [(9, Demo.progressRow)] 3 9 [⟨(3, "progress.json"), ⟨#[1]⟩, true⟩] := by
  refine (@backends_interchangeable Demo.localSettings Demo.s3Settings rfl rfl _ _ rfl rfl true _ _
    (List.forall_mem_singleton.mpr Demo.runScoped_progress) 3 9).mpr ?_
  intro artifact hselect
  obtain rfl : Demo.progressRow = artifact := Option.some.inj hselect
  exact ⟨⟨_, List.mem_singleton_self _, rfl⟩, by decide, by decide⟩

end Runscope
