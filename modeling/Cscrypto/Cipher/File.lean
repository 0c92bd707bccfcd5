import Cscrypto.Cipher.SecretStream
import Cscrypto.Cipher.Stdio
import Cscrypto.Memory.Guard

namespace Cscrypto.Cipher

open Cscrypto.Data

/-! # Encrypted files

`encryptFile` and `decryptFile` with their loops.  A loop is given a budget of
iterations, which the results below bound by the length of the source.
-/

abbrev kChunkSize : Nat := 4096

abbrev CipherKey := MemGuard kCipherKeySize

def encryptLoop (ss : SecretStream) :
    Nat → ss.State → FILE → FILE → Disk → Except Fault (FILE × FILE × Disk)
  | 0, _, _, _, _ => .error .outOfFuel
  | fuel + 1, st, fs, ft, disk =>
      let (plain, fs, disk) := disk.fread fs kChunkSize
      let tag := if fs.eof then tagFinal else tagMessage
      let (encrypted, st) := ss.push st plain tag
      let (_, ft, disk) := disk.fwrite ft encrypted
      if fs.eof then .ok (fs, ft, disk) else encryptLoop ss fuel st fs ft disk

/-- `header` is the random header that `init_push` draws. When one of the
files cannot be opened, the other one stays open. -/
def encryptFile (ss : SecretStream) (fuel : Nat) (target source : Path) (key : CipherKey)
    (header : Header) (disk : Disk) : Except Fault (Bool × CipherKey × Disk) :=
  let (fs, disk) := disk.fopenRead source
  let (ft, disk) := disk.fopenWrite target
  match fs, ft with
  | some fs, some ft => do
      let key ← key.mprotect .readOnly
      let secret ← key.read
      let st := ss.initPush secret header
      let (_, ft, disk) := disk.fwrite ft header.bytes
      let (fs, ft, disk) ← encryptLoop ss fuel st fs ft disk
      let (_, disk) := disk.fclose fs
      let (_, disk) := disk.fclose ft
      let key ← key.mprotect .noAccess
      return (true, key, disk)
  | _, _ => .ok (false, key, disk)

/-- What a call of `decryptFile` leaves; `pulled` is the history of chunks
that `pull` accepted. -/
structure Decryption where
  accepted : Bool
  key : CipherKey
  disk : Disk
  pulled : List Chunk

def clear (key : CipherKey) (fs ft : FILE) (disk : Disk) : Except Fault (CipherKey × Disk) := do
  let key ← key.mprotect .noAccess
  let (_, disk) := disk.fclose fs
  let (_, disk) := disk.fclose ft
  return (key, disk)

def finish (accepted : Bool) (key : CipherKey) (fs ft : FILE) (disk : Disk) (pulled : List Chunk) :
    Except Fault Decryption := do
  let (key, disk) ← clear key fs ft disk
  return ⟨accepted, key, disk, pulled⟩

def decryptLoop (ss : SecretStream) (key : CipherKey) :
    Nat → ss.State → FILE → FILE → Disk → List Chunk → Except Fault Decryption
  | 0, _, _, _, _, _ => .error .outOfFuel
  | fuel + 1, st, fs, ft, disk, pulled =>
      let (encrypted, fs, disk) := disk.fread fs (kChunkSize + kABytes)
      match ss.pull st encrypted with
      | none => finish false key fs ft disk pulled
      | some (plain, tag, st) =>
          if tag = tagFinal ∧ fs.eof = false then
            finish false key fs ft disk (pulled ++ [(plain, tag)])
          else
            let (_, ft, disk) := disk.fwrite ft plain
            if fs.eof then finish true key fs ft disk (pulled ++ [(plain, tag)])
            else decryptLoop ss key fuel st fs ft disk (pulled ++ [(plain, tag)])

/-- The header buffer after a read: the bytes read, over what was on the
stack before. -/
def headerOver (stack : Header) (bytes : Bytes) (fits : bytes.length ≤ kHeaderBytes) : Header :=
  ⟨bytes ++ stack.bytes.drop bytes.length, by
    simp only [List.length_append, List.length_drop, stack.size_eq]
    omega⟩

theorem Disk.fread_length_le (disk : Disk) (file : FILE) (count : Nat) :
    (disk.fread file count).1.length ≤ count := by
  unfold Disk.fread
  split
  · exact List.length_take_le _ _
  · exact (List.length_take_le _ _).trans (Nat.min_le_left _ _)

/-- `stack` is the uninitialised content of `header`; the result of reading
the header is not looked at. -/
def decryptFile (ss : SecretStream) (fuel : Nat) (target source : Path) (key : CipherKey)
    (stack : Header) (disk : Disk) : Except Fault Decryption :=
  let (fs, disk) := disk.fopenRead source
  let (ft, disk) := disk.fopenWrite target
  match fs, ft with
  | some fs, some ft => do
      let key ← key.mprotect .readOnly
      let header := headerOver stack (disk.fread fs kHeaderBytes).1
        (disk.fread_length_le fs kHeaderBytes)
      let (_, fs, disk) := disk.fread fs kHeaderBytes
      let secret ← key.read
      match ss.initPull secret header with
      | none => finish false key fs ft disk []
      | some st => decryptLoop ss key fuel st fs ft disk []
  | _, _ => .ok ⟨false, key, disk, []⟩

def tagged : List Bytes → List Chunk
  | [] => []
  | [last] => [(last, tagFinal)]
  | piece :: next :: rest => (piece, tagMessage) :: tagged (next :: rest)

@[simp] theorem tagged_map_fst (pieces : List Bytes) : (tagged pieces).map Prod.fst = pieces := by
  fun_induction tagged pieces with
  | case1 => rfl
  | case2 last => rfl
  | case3 piece next rest ih => rw [List.map_cons, ih]

theorem tagged_cons (piece : Bytes) {rest : List Bytes} (more : rest ≠ []) :
    tagged (piece :: rest) = (piece, tagMessage) :: tagged rest := by
  cases rest with
  | nil => contradiction
  | cons next rest => rfl

theorem tagged_ne_nil {pieces : List Bytes} (more : pieces ≠ []) : tagged pieces ≠ [] := by
  intro empty
  apply more
  rw [← tagged_map_fst pieces, empty, List.map_nil]

theorem tagged_dropLast (pieces : List Bytes) : ∀ chunk ∈ (tagged pieces).dropLast,
    chunk.2 ≠ tagFinal := by
  fun_induction tagged pieces with
  | case1 => simp
  | case2 last => simp
  | case3 piece next rest ih =>
      rw [List.dropLast_cons_of_ne_nil (tagged_ne_nil (List.cons_ne_nil next rest))]
      intro chunk member
      rcases List.mem_cons.mp member with rfl | later
      · exact fun final => absurd final (show tagMessage ≠ tagFinal by decide)
      · exact ih chunk later

def fileMessages (content : Bytes) : List Chunk := tagged (blocks kChunkSize content)

def streamFile (ss : SecretStream) (secret : StreamKey) (header : Header)
    (chunks : List Chunk) : Bytes :=
  header.bytes ++ (ss.pushAll (ss.initPush secret header) chunks).flatten

theorem encryptLoop_pieces (ss : SecretStream) (fs : FILE) {pieces : List Bytes}
    {content output : Bytes} (cut : Blocked kChunkSize pieces) {fuel : Nat}
    (enough : pieces.length ≤ fuel) (st : ss.State) {ft : FILE} {disk : Disk}
    (reliable : disk.Reliable) (different : fs.path ≠ ft.path)
    (stored : disk.files fs.path = some content) (written : disk.files ft.path = some output)
    (before : fs.eof = false) (remaining : content.drop fs.pos = pieces.flatten) :
    ∃ fs' ft' disk', encryptLoop ss fuel st fs ft disk = .ok (fs', ft', disk') ∧
      fs'.path = fs.path ∧ fs'.pending = fs.pending ∧
      Wrote ft disk (ss.pushAll st (tagged pieces)).flatten ft' disk' := by
  induction cut generalizing fuel st fs ft disk output with
  | @last piece short =>
      obtain ⟨fuel, rfl⟩ := Nat.exists_eq_succ_of_ne_zero (Nat.ne_zero_of_lt enough)
      obtain ⟨fs', read, path, pending, _, eof⟩ :=
        Disk.fread_piece fs kChunkSize reliable stored remaining (.inr ⟨short, rfl⟩)
      rw [before, decide_eq_true short, Bool.or_true] at eof
      have silent := Wrote.tick written
      rcases writing : disk.tick.fwrite ft (ss.push st piece tagFinal).1 with ⟨count, ft', disk'⟩
      have wrote := Wrote.fwrite (silent.reliable reliable) (ss.push st piece tagFinal).1 written
      rw [writing] at wrote
      refine ⟨fs', ft', disk', ?_, path, pending, ?_⟩
      · simp only [encryptLoop, read, eof, if_true, writing]
      · simpa only [tagged, SecretStream.pushAll, List.flatten_singleton,
          List.nil_append] using silent.trans wrote
  | @cons pieces piece full rest ih =>
      obtain ⟨fuel, rfl⟩ := Nat.exists_eq_succ_of_ne_zero (Nat.ne_zero_of_lt enough)
      obtain ⟨fs', read, path, pending, next, eof⟩ :=
        Disk.fread_piece fs kChunkSize reliable stored remaining (.inl full)
      rw [before, full, decide_eq_false (Nat.lt_irrefl _), Bool.or_false] at eof
      have silent := Wrote.tick written
      rcases pushing : ss.push st piece tagMessage with ⟨encrypted, st'⟩
      rcases writing : disk.tick.fwrite ft encrypted with ⟨count, ft', disk'⟩
      have wrote := Wrote.fwrite (silent.reliable reliable) encrypted written
      rw [writing] at wrote
      have wrote' := silent.trans wrote
      obtain ⟨_, found, _⟩ := wrote'.stored written
      have kept : disk'.files fs'.path = some content := by
        rw [path, wrote'.others _ different]
        exact stored
      obtain ⟨fs'', ft'', disk'', ran, path', pending', wroteRest⟩ :=
        ih fs' (Nat.le_of_succ_le_succ enough) st' (wrote'.reliable reliable)
          (by rw [path, wrote'.path]; exact different) kept found eof next
      refine ⟨fs'', ft'', disk'', ?_, path'.trans path, pending'.trans pending, ?_⟩
      · simp only [encryptLoop, read, eof, Bool.false_eq_true, if_false, pushing, writing]
        exact ran
      · rw [tagged_cons piece rest.ne_nil, SecretStream.pushAll, pushing, List.flatten_cons]
        exact wrote'.trans wroteRest

/-- Both loops end in the same way: the source was only read, so closing the
streams completes the target and nothing else. -/
theorem close_both {fs ft : FILE} {disk : Disk} {stored : Bytes} (reliable : disk.Reliable)
    (unwritten : fs.pending = []) (found : disk.files ft.path = some stored) :
    ∃ disk', ((disk.fclose fs).2.fclose ft).2 = disk' ∧
      disk'.files ft.path = some (stored ++ ft.pending) ∧
      (∀ path, path ≠ ft.path → disk'.files path = disk.files path) ∧
      disk'.opened = disk.opened - 2 ∧ disk'.Reliable := by
  have same : (disk.fclose fs).2.files = disk.files := Disk.fclose_files_of_unwritten unwritten
  have reliable' : (disk.fclose fs).2.Reliable := by
    intro time
    rw [Disk.fclose_fate]
    exact reliable time
  have closed := Disk.fclose_written reliable' (by rw [same]; exact found)
  refine ⟨_, rfl, closed.1, ?_, ?_, ?_⟩
  · intro path different
    rw [closed.2 path different, same]
  · rw [Disk.fclose_opened, Disk.fclose_opened, Nat.sub_sub]
  · intro time
    rw [Disk.fclose_fate]
    exact reliable' time

/-- The files of a call that nothing goes wrong with: `source` holds
`content`, `target` is another file, and no operation fails. -/
structure FilesReady (target source : Path) (content : Bytes) (disk : Disk) : Prop where
  reliable : disk.Reliable
  different : source ≠ target
  stored : disk.files source = some content

theorem FilesReady.fopen {target source : Path} {content : Bytes} {disk : Disk}
    (ready : FilesReady target source content disk) :
    ∃ middle disk', disk.fopenRead source = (some ⟨source, 0, false, []⟩, middle) ∧
      middle.fopenWrite target = (some ⟨target, 0, false, []⟩, disk') ∧
      disk'.Reliable ∧ disk'.files source = some content ∧ disk'.files target = some [] ∧
      (∀ path, path ≠ target → disk'.files path = disk.files path) ∧
      disk'.opened = disk.opened + 2 := by
  have first : disk.current.limit = none := (ready.reliable disk.clock).1
  have second : disk.tick.current.limit = none := (ready.reliable (disk.clock + 1)).1
  refine ⟨{ disk.tick with opened := disk.opened + 1 }, { disk.tick.tick with
    opened := disk.opened + 1 + 1
    files := Function.update disk.files target (some []) }, ?_, ?_, ready.reliable, ?_, ?_, ?_, rfl⟩
  · simp only [Disk.fopenRead, first, ready.stored, Option.isSome_some, and_self, if_true]
  · exact if_pos second
  · rw [← ready.stored]
    exact Function.update_of_ne ready.different _ _
  · exact Function.update_self _ _ _
  · intro path different
    exact Function.update_of_ne different _ _

theorem encryptFile_ready (ss : SecretStream) {target source : Path} {content : Bytes} {disk : Disk}
    (ready : FilesReady target source content disk) (secret : StreamKey) (protection : Protection)
    (header : Header) {fuel : Nat} (enough : content.length / kChunkSize < fuel) :
    ∃ disk', encryptFile ss fuel target source (.holding secret protection) header disk =
        .ok (true, .holding secret .noAccess, disk') ∧
      disk'.files target = some (streamFile ss secret header (fileMessages content)) ∧
      (∀ path, path ≠ target → disk'.files path = disk.files path) ∧
      disk'.opened = disk.opened ∧ disk'.Reliable := by
  obtain ⟨middle, start, openSource, openTarget, reliable, stored, created, others,
    opened⟩ := ready.fopen
  have wroteHeader : Wrote ⟨target, 0, false, []⟩ start header.bytes _ _ :=
    Wrote.fwrite reliable header.bytes created
  rcases writing : start.fwrite ⟨target, 0, false, []⟩ header.bytes with ⟨count, ft, disk₁⟩
  rw [writing] at wroteHeader
  obtain ⟨_, written, _⟩ := wroteHeader.stored created
  have same : ft.path = target := wroteHeader.path
  have positive : 0 < kChunkSize := by decide
  have pieces : (blocks kChunkSize content).length ≤ fuel := by
    rw [blocks_length]
    exact enough
  have kept : disk₁.files source = some content := by
    rw [wroteHeader.others source ready.different]
    exact stored
  obtain ⟨fs', ft', disk₂, ran, _, unwritten, wroteLoop⟩ :=
    encryptLoop_pieces ss ⟨source, 0, false, []⟩ (blocks_blocked positive content) pieces
      (ss.initPush secret header) (wroteHeader.reliable reliable)
      (by rw [same]; exact ready.different) kept written rfl
      (blocks_flatten positive content).symm
  have wrote := wroteHeader.trans wroteLoop
  obtain ⟨kept, found, complete⟩ := wrote.stored created
  have path : ft'.path = target := wrote.path
  obtain ⟨disk', closing, result, untouched, closed, reliable'⟩ :=
    close_both (wrote.reliable reliable) unwritten found
  refine ⟨disk', ?_, ?_, ?_, ?_, reliable'⟩
  · simp only [encryptFile, openSource, openTarget, MemGuard.mprotect_holding,
      MemGuard.read_readOnly, ok_bind, pure_eq_ok, writing, ran, closing]
  · rw [← path, result, complete]
    rfl
  · intro other different
    rw [untouched other (by rw [path]; exact different), wrote.others other different,
      others other different]
  · rw [closed, wrote.opened, opened, Nat.add_sub_cancel]

theorem finish_ok (secret : StreamKey) {fs ft : FILE} {disk : Disk} {stored : Bytes}
    (accepted : Bool) (protection : Protection) (reliable : disk.Reliable)
    (unwritten : fs.pending = []) (found : disk.files ft.path = some stored) (pulled : List Chunk) :
    ∃ disk', finish accepted (.holding secret protection) fs ft disk pulled =
        .ok ⟨accepted, .holding secret .noAccess, disk', pulled⟩ ∧
      disk'.files ft.path = some (stored ++ ft.pending) := by
  obtain ⟨disk', closing, result, _⟩ := close_both reliable unwritten found
  refine ⟨disk', ?_, result⟩
  simp only [finish, clear, MemGuard.mprotect_holding, ok_bind, pure_eq_ok, closing]

/-- The loop of `decryptFile` accepts exactly the sources whose pieces form a
stream, and then it has written the messages. -/
theorem decryptLoop_pieces (ss : SecretStream) (secret : StreamKey) (fs : FILE)
    {pieces : List Bytes} {content stored : Bytes}
    (cut : Blocked (kChunkSize + kABytes) pieces) {fuel : Nat}
    (enough : pieces.length ≤ fuel) (st : ss.State) {ft : FILE} {disk : Disk}
    (reliable : disk.Reliable) (different : fs.path ≠ ft.path) (unwritten : fs.pending = [])
    (sourceStored : disk.files fs.path = some content) (found : disk.files ft.path = some stored)
    (before : fs.eof = true → pieces.flatten = [])
    (remaining : content.drop fs.pos = pieces.flatten)
    (pulled : List Chunk) :
    ∃ result, decryptLoop ss (.holding secret .readOnly) fuel st fs ft disk pulled = .ok result ∧
      result.key = .holding secret .noAccess ∧
      result.accepted = (ss.pullStream st pieces).isSome ∧
      ∀ chunks, ss.pullStream st pieces = some chunks →
        result.pulled = pulled ++ chunks ∧
        result.disk.files ft.path =
          some (stored ++ ft.pending ++ (chunks.map Prod.fst).flatten) := by
  induction cut generalizing fuel st fs ft disk stored pulled with
  | @last piece short =>
      obtain ⟨fuel, rfl⟩ := Nat.exists_eq_succ_of_ne_zero (Nat.ne_zero_of_lt enough)
      obtain ⟨fs', read, path, pending, _, eof⟩ :=
        Disk.fread_piece fs (kChunkSize + kABytes) reliable sourceStored remaining
          (.inr ⟨short, rfl⟩)
      rw [decide_eq_true short, Bool.or_true] at eof
      rw [unwritten] at pending
      have silent := Wrote.tick found
      simp only [decryptLoop, read, eof, Bool.true_eq_false, and_false, if_false, if_true,
        SecretStream.pullStream]
      rcases ss.pull st piece with _ | ⟨plain, tag, st'⟩
      · obtain ⟨disk', ran, _⟩ := finish_ok secret false .readOnly
          (silent.reliable reliable) pending found pulled
        exact ⟨_, ran, rfl, rfl, fun _ none => by contradiction⟩
      · rcases writing : disk.tick.fwrite ft plain with ⟨count, ft', disk'⟩
        have wrote := Wrote.fwrite (silent.reliable reliable) plain found
        rw [writing] at wrote
        obtain ⟨stored', kept, complete⟩ := wrote.stored found
        obtain ⟨disk'', ran, result⟩ := finish_ok secret true .readOnly
          (wrote.reliable (silent.reliable reliable)) pending kept (pulled ++ [(plain, tag)])
        simp only [ne_eq, not_true_eq_false, and_false, if_false, Option.map_some, writing]
        refine ⟨_, ran, rfl, rfl, ?_⟩
        intro chunks same
        cases same
        refine ⟨rfl, ?_⟩
        rw [← wrote.path, result, complete, List.map_singleton, List.flatten_singleton]
  | @cons pieces piece full rest ih =>
      obtain ⟨fuel, rfl⟩ := Nat.exists_eq_succ_of_ne_zero (Nat.ne_zero_of_lt enough)
      obtain ⟨fs', read, path, pending, next, eof⟩ :=
        Disk.fread_piece fs (kChunkSize + kABytes) reliable sourceStored remaining (.inl full)
      have unended : fs.eof = false := by
        refine Bool.eq_false_iff.mpr (fun ended => ?_)
        have empty := before ended
        rw [List.flatten_cons, List.append_eq_nil_iff] at empty
        rw [empty.1] at full
        contradiction
      rw [unended, full, decide_eq_false (Nat.lt_irrefl _), Bool.or_false] at eof
      rw [unwritten] at pending
      have silent := Wrote.tick found
      simp only [decryptLoop, read, eof, and_true, Bool.false_eq_true, if_false,
        SecretStream.pullStream]
      rcases ss.pull st piece with _ | ⟨plain, tag, st'⟩
      · obtain ⟨disk', ran, _⟩ := finish_ok secret false .readOnly
          (silent.reliable reliable) pending found pulled
        exact ⟨_, ran, rfl, rfl, fun _ none => by contradiction⟩
      · by_cases final : tag = tagFinal
        · obtain ⟨disk', ran, _⟩ := finish_ok secret false .readOnly
            (silent.reliable reliable) pending found (pulled ++ [(plain, tag)])
          simp only [final, rest.ne_nil, ne_eq, not_false_eq_true, and_self, if_true] at ran ⊢
          exact ⟨_, ran, rfl, rfl, fun _ none => by contradiction⟩
        · rcases writing : disk.tick.fwrite ft plain with ⟨count, ft', disk'⟩
          have wrote := silent.trans (Wrote.fwrite (silent.reliable reliable) plain found)
          rw [writing] at wrote
          obtain ⟨stored', kept, complete⟩ := wrote.stored found
          have sourceKept : disk'.files fs'.path = some content := by
            rw [path, wrote.others _ different]
            exact sourceStored
          obtain ⟨result, ran, key, accepted, delivered⟩ :=
            ih fs' (Nat.le_of_succ_le_succ enough) st' (wrote.reliable reliable)
              (by rw [path, wrote.path]; exact different) pending sourceKept kept
              (fun ended => absurd (ended.symm.trans eof) (by decide)) next
              (pulled ++ [(plain, tag)])
          simp only [final, false_and, if_false, Option.isSome_map, writing]
          refine ⟨result, ran, key, accepted, ?_⟩
          intro chunks same
          obtain ⟨tail, continued, rfl⟩ := Option.map_eq_some_iff.mp same
          obtain ⟨history, output⟩ := delivered tail continued
          refine ⟨by rw [history, List.append_assoc]; rfl, ?_⟩
          rw [← wrote.path, output, complete, List.map_cons, List.flatten_cons, List.append_assoc]
          rfl

def headerOf (stack : Header) (image : Bytes) : Header :=
  headerOver stack (image.take kHeaderBytes) (List.length_take_le _ _)

def openStream (ss : SecretStream) (secret : StreamKey) (stack : Header) (image : Bytes) :
    Option (List Chunk) :=
  (ss.initPull secret (headerOf stack image)).bind
    (fun st => ss.pullStream st (blocks (kChunkSize + kABytes) (image.drop kHeaderBytes)))

/-- `decryptFile` returns for every source, and what it does is decided by
`openStream`. -/
theorem decryptFile_ready (ss : SecretStream) {target source : Path} {image : Bytes} {disk : Disk}
    (ready : FilesReady target source image disk) (secret : StreamKey) (protection : Protection)
    (stack : Header) {fuel : Nat} (enough : image.length / (kChunkSize + kABytes) < fuel) :
    ∃ result, decryptFile ss fuel target source (.holding secret protection) stack disk =
      .ok result ∧
      result.key = .holding secret .noAccess ∧
      result.accepted = (openStream ss secret stack image).isSome ∧
      ∀ chunks, openStream ss secret stack image = some chunks →
        result.pulled = chunks ∧ result.disk.files target = some (chunks.map Prod.fst).flatten := by
  obtain ⟨middle, start, openSource, openTarget, reliable, stored, created, _⟩ := ready.fopen
  have cut : (image.take kHeaderBytes).length = kHeaderBytes ∨
      ((image.take kHeaderBytes).length < kHeaderBytes ∧ image.drop kHeaderBytes = []) := by
    rw [List.length_take, List.drop_eq_nil_iff]
    omega
  obtain ⟨fs, read, path, unwritten, next, eof⟩ :=
    Disk.fread_piece ⟨source, 0, false, []⟩ kHeaderBytes reliable stored
      (List.take_append_drop kHeaderBytes image).symm cut
  have positive : 0 < kChunkSize + kABytes := by decide
  have body : (blocks (kChunkSize + kABytes) (image.drop kHeaderBytes)).length ≤ fuel := by
    rw [blocks_length, List.length_drop]
    have fewer : (image.length - kHeaderBytes) / (kChunkSize + kABytes) ≤
        image.length / (kChunkSize + kABytes) :=
      Nat.div_le_div_right (Nat.sub_le image.length kHeaderBytes)
    omega
  have ended : fs.eof = true →
      (blocks (kChunkSize + kABytes) (image.drop kHeaderBytes)).flatten = [] := by
    intro reached
    rw [blocks_flatten positive]
    rw [eof, Bool.false_or, decide_eq_true_eq] at reached
    exact (cut.resolve_left (Nat.ne_of_lt reached)).2
  simp only [decryptFile, openSource, openTarget, MemGuard.mprotect_holding, MemGuard.read_readOnly,
    ok_bind, read, openStream, headerOf]
  have fresh : start.tick.files (FILE.mk target 0 false []).path = some [] := created
  have reliable' : start.tick.Reliable := reliable
  rcases ss.initPull secret (headerOver stack (image.take kHeaderBytes) _) with _ | st
  · obtain ⟨disk', ran, _⟩ := finish_ok secret false .readOnly reliable' unwritten fresh []
    exact ⟨_, ran, rfl, rfl, fun _ none => by contradiction⟩
  · obtain ⟨result, ran, key, accepted, delivered⟩ := decryptLoop_pieces ss secret fs
      (blocks_blocked positive _) body st reliable'
      (by rw [path]; exact ready.different) unwritten (by rw [path]; exact stored) fresh ended
      (by rw [next, blocks_flatten positive]) []
    exact ⟨result, ran, key, accepted, delivered⟩

end Cscrypto.Cipher
