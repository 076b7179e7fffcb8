import ModelPool.Digest.Tree
import ModelPool.Proofs.Digest.Walk
import ModelPool.Files.Texts

/-!
# Proofs/Digest/Identity — the digest of a tree tells which files are in it

    a/x.rs ␀ 9f86d081… ␊ b.rs ␀ 60303ae2… ␊
    path     hash        path   hash

What is hashed is a line for each file: its path, a zero byte, the hash of its bytes, and a line feed.  No path has
a zero byte and no hash a line feed, so the lines come apart again, and the listing tells of every path whether a
file stands there and what its hash is.

* `hashLine_append_inj` — the first line is cut off.
* `FileTree.hashesBelow_eq_iff` — the hashes of a tree, path by path.
* `FileTree.digest_tells_files` — equal listings are those of equal files.
-/

namespace ModelPool

open Text

/-! ## Bytes of characters -/

/-- A byte below 128 is a character of its own. -/
theorem toNat_of_mem_encodeChar {c : Char} {b : UInt8} (h : b ∈ String.utf8EncodeChar c) (hb : b.toNat < 0x80) :
    c.toNat = b.toNat := by
  have hlarge : ∀ n, 128 ≤ n → n < 256 → b ≠ UInt8.ofNat n := by
    rintro n hle hlt rfl
    rw [toNat_ofNat_of_lt hlt] at hb
    omega
  have hcode : c.toNat < 0x110000 := by
    have hvalid : c.toNat.isValidChar := c.valid
    rcases hvalid with h | ⟨-, h⟩ <;> omega
  have hmem : b ∈ if c.toNat ≤ 0x7f then [UInt8.ofNat c.toNat]
      else if c.toNat ≤ 0x7ff then [UInt8.ofNat (c.toNat / 64 % 32 + 192), UInt8.ofNat (c.toNat % 64 + 128)]
      else if c.toNat ≤ 0xffff then [UInt8.ofNat (c.toNat / 4096 % 16 + 224),
        UInt8.ofNat (c.toNat / 64 % 64 + 128), UInt8.ofNat (c.toNat % 64 + 128)]
      else [UInt8.ofNat (c.toNat / 262144 % 8 + 240), UInt8.ofNat (c.toNat / 4096 % 64 + 128),
        UInt8.ofNat (c.toNat / 64 % 64 + 128), UInt8.ofNat (c.toNat % 64 + 128)] := h
  by_cases hone : c.toNat ≤ 0x7f
  · rw [if_pos hone, List.mem_singleton] at hmem
    rw [hmem, toNat_ofNat_of_lt (by omega)]
  · rw [if_neg hone] at hmem
    -- all bytes of a longer character are large
    exfalso
    split at hmem
    · rcases List.mem_pair.1 hmem with h | h <;> exact hlarge _ (by omega) (by omega) h
    · split at hmem
      · simp only [List.mem_cons, List.not_mem_nil, or_false] at hmem
        rcases hmem with h | h | h <;> exact hlarge _ (by omega) (by omega) h
      · simp only [List.mem_cons, List.not_mem_nil, or_false] at hmem
        rcases hmem with h | h | h | h <;> exact hlarge _ (by omega) (by omega) h

theorem mem_toList_of_mem_toUTF8 {s : String} {c : Char} (hc : c.toNat < 0x80)
    (h : UInt8.ofNat c.toNat ∈ s.toUTF8.data.toList) : c ∈ s.toList := by
  rw [toList_toUTF8] at h
  obtain ⟨d, hd, hmem⟩ := List.mem_flatMap.1 h
  have hbyte : (UInt8.ofNat c.toNat).toNat = c.toNat := toNat_ofNat_of_lt (by omega)
  have hcode := toNat_of_mem_encodeChar hmem (by omega)
  rw [hbyte] at hcode
  rwa [Char.toNat_inj.1 hcode] at hd

theorem toUTF8_inj {s s' : String} (h : s.toUTF8.data.toList = s'.toUTF8.data.toList) : s = s' := by
  have hread := congrArg characters? h
  rw [characters?_toUTF8, characters?_toUTF8] at hread
  exact String.toList_inj.1 (Option.some.inj hread)

/-! ## Lines -/

/-- What stands before the first separator, and what stands behind it. -/
theorem append_separator_inj {a b r r' : List UInt8} {x : UInt8} (ha : x ∉ a) (hb : x ∉ b)
    (h : a ++ x :: r = b ++ x :: r') : a = b ∧ r = r' := by
  induction a generalizing b with
  | nil =>
    cases b with
    | nil => exact ⟨rfl, (List.cons.inj h).2⟩
    | cons y b => exact absurd ((List.cons.inj h).1 ▸ List.mem_cons_self) hb
  | cons y a ih =>
    cases b with
    | nil => exact absurd ((List.cons.inj h).1 ▸ List.mem_cons_self) ha
    | cons z b =>
      obtain ⟨rfl, hrest⟩ := List.cons.inj h
      obtain ⟨rfl, rfl⟩ := ih (mt (List.mem_cons_of_mem _) ha) (mt (List.mem_cons_of_mem _) hb) hrest
      exact ⟨rfl, rfl⟩

/-- The line with a path and a hash. -/
def hashLine (path hash : String) : List UInt8 :=
  path.toUTF8.data.toList ++ 0 :: hash.toUTF8.data.toList ++ [10]

theorem listingLine_eq (path : String) (bytes : ByteArray) :
    listingLine path bytes = hashLine path (Blake3.hexHash bytes.data.toList) := by
  rw [listingLine, hashLine]

/-- **The first line is cut off** from what follows it. -/
theorem hashLine_append_inj {path path' hash hash' : String} {r r' : List UInt8}
    (hpath : '\x00' ∉ path.toList) (hpath' : '\x00' ∉ path'.toList) (hhash : '\n' ∉ hash.toList)
    (hhash' : '\n' ∉ hash'.toList) (h : hashLine path hash ++ r = hashLine path' hash' ++ r') :
    path = path' ∧ hash = hash' ∧ r = r' := by
  have hzero : ∀ {s : String}, '\x00' ∉ s.toList → (0 : UInt8) ∉ s.toUTF8.data.toList :=
    fun hs hmem => hs (mem_toList_of_mem_toUTF8 (c := '\x00') (by decide) hmem)
  have hfeed : ∀ {s : String}, '\n' ∉ s.toList → (10 : UInt8) ∉ s.toUTF8.data.toList :=
    fun hs hmem => hs (mem_toList_of_mem_toUTF8 (c := '\n') (by decide) hmem)
  simp only [hashLine, List.append_assoc, List.cons_append, List.nil_append] at h
  obtain ⟨hp, hbehind⟩ := append_separator_inj (hzero hpath) (hzero hpath') h
  obtain ⟨hh, hr⟩ := append_separator_inj (hfeed hhash) (hfeed hhash') hbehind
  exact ⟨toUTF8_inj hp, toUTF8_inj hh, hr⟩

/-- A hash is written in digits. -/
theorem lineFeed_not_mem_hexHash (bytes : List UInt8) : '\n' ∉ (Blake3.hexHash bytes).toList := by
  rw [Blake3.hexHash, String.toList_ofList, List.mem_flatMap]
  rintro ⟨b, -, hmem⟩
  have hdigit : ∀ n < 16, Nat.digitChar n ≠ '\n' := by decide
  have hb : b.toNat < 256 := b.toNat_lt
  rcases List.mem_pair.1 hmem with heq | heq
  · exact hdigit _ (by omega) heq.symm
  · exact hdigit _ (by omega) heq.symm

/-! ## Paths -/

/-- **Names that a listing keeps apart**: they have no zero byte, like all names of files, and no backslash. -/
def IsListable (names : Place) : Prop := ∀ name ∈ names, IsName name ∧ '\x00' ∉ name.toList ∧ '\\' ∉ name.toList

theorem mem_intercalate {names : Place} {c : Char} (h : c ∈ ("/".intercalate names).toList) :
    c = '/' ∨ ∃ name ∈ names, c ∈ name.toList := by
  induction names with
  | nil => exact absurd h (by simp)
  | cons name names ih =>
    cases names with
    | nil => exact .inr ⟨name, List.mem_cons_self, by simpa using h⟩
    | cons name' names =>
      rw [String.intercalate_cons_cons, String.toList_append, String.toList_append, List.mem_append,
        List.mem_append] at h
      rcases h with (h | h) | h
      · exact .inr ⟨name, List.mem_cons_self, h⟩
      · exact .inl (by simpa using h)
      · exact (ih h).imp_right fun ⟨n, hn, hc⟩ => ⟨n, List.mem_cons_of_mem _ hn, hc⟩

theorem IsListable.listedPath_eq {names : Place} (h : IsListable names) :
    listedPath names = "/".intercalate names := by
  have hkept : ∀ c ∈ ("/".intercalate names).toList, (if c = '\\' then '/' else c) = c := by
    intro c hc
    refine if_neg ?_
    rintro rfl
    rcases mem_intercalate hc with hslash | ⟨name, hname, hmem⟩
    · exact absurd hslash (by decide)
    · exact (h name hname).2.2 hmem
  rw [listedPath, List.map_congr_left hkept, List.map_id', String.ofList_toList]

theorem IsListable.zero_not_mem {names : Place} (h : IsListable names) : '\x00' ∉ (listedPath names).toList := by
  rw [h.listedPath_eq]
  intro hmem
  rcases mem_intercalate hmem with hslash | ⟨name, hname, hzero⟩
  · exact absurd hslash (by decide)
  · exact (h name hname).2.1 hzero

/-- **A path is listed as no other one.** -/
theorem IsListable.listedPath_inj {names names' : Place} (h : IsListable names) (h' : IsListable names')
    (heq : listedPath names = listedPath names') : names = names' := by
  rw [h.listedPath_eq, h'.listedPath_eq] at heq
  have hpieces : ∀ {names : Place}, IsListable names →
      (pieces ("/".intercalate names).toList).map String.ofList = if names = [] then [""] else names := by
    intro names h
    cases names with
    | nil => rfl
    | cons name names => exact FilePath.pieces_intercalate fun n hn => (h n hn).1.no_slash
  have hsame := hpieces h
  rw [heq, hpieces h'] at hsame
  have hne : ∀ {names : Place}, IsListable names → names ≠ [""] := by
    rintro _ h rfl
    exact (h "" List.mem_cons_self).1.ne_empty rfl
  split at hsame <;> split at hsame
  · simp_all
  · exact absurd hsame.symm (hne h)
  · exact absurd hsame (hne h')
  · exact hsame.symm

/-! ## Trees -/

namespace FileTree

variable {t u : FileTree} {d e : Place}

/-- The bytes of the file that a path below a place leads to. -/
def bytesBelow? (t : FileTree) (d names : Place) : Option ByteArray :=
  match t.at? (d ++ names) with
  | some (.file bytes) => some bytes
  | _ => none

/-- The hash of the file that a path below a place leads to. -/
def hashBelow? (t : FileTree) (d names : Place) : Option String :=
  (t.bytesBelow? d names).map fun bytes => Blake3.hexHash bytes.data.toList

/-- The paths of all files below a place, each with its hash. -/
def hashesBelow (t : FileTree) (d : Place) : List (Place × String) :=
  (t.filesBelow d).map fun file => (file.1.drop d.length, Blake3.hexHash file.2.data.toList)

/-- **The names below a place are listable.** -/
def IsListableBelow (t : FileTree) (d : Place) : Prop :=
  ∀ names e, t.at? (d ++ names) = some e → ∀ name ∈ names, '\x00' ∉ name.toList ∧ '\\' ∉ name.toList

theorem bytesBelow?_eq_some_iff {names : Place} {bytes : ByteArray} :
    t.bytesBelow? d names = some bytes ↔ t.at? (d ++ names) = some (.file bytes) := by
  unfold bytesBelow?
  split
  · next held hheld => rw [hheld, Option.some.injEq, Option.some.injEq, Entry.file.injEq]
  · next hnone => exact iff_of_false (by simp) (hnone bytes)

theorem mem_hashesBelow_iff {names : Place} {hash : String} :
    (names, hash) ∈ t.hashesBelow d ↔ t.hashBelow? d names = some hash := by
  rw [hashesBelow, List.mem_map, hashBelow?, Option.map_eq_some_iff]
  constructor
  · rintro ⟨⟨k, bytes⟩, hmem, hpair⟩
    obtain ⟨⟨rest, rfl⟩, hfile⟩ := mem_filesBelow_iff.1 hmem
    obtain ⟨rfl, rfl⟩ := Prod.mk.inj hpair
    rw [List.drop_left]
    exact ⟨bytes, bytesBelow?_eq_some_iff.2 hfile, rfl⟩
  · rintro ⟨bytes, hbytes, rfl⟩
    refine ⟨(d ++ names, bytes), mem_filesBelow_iff.2 ⟨List.prefix_append _ _, bytesBelow?_eq_some_iff.1 hbytes⟩, ?_⟩
    rw [List.drop_left]

theorem pairwise_hashesBelow (t : FileTree) (d : Place) : (t.hashesBelow d).Pairwise Before := by
  refine List.pairwise_map.2 ((pairwise_filesBelow t d).imp_of_mem fun {a b} ha hb hlt => ?_)
  obtain ⟨⟨restA, hA⟩, -⟩ := mem_filesBelow_iff.1 ha
  obtain ⟨⟨restB, hB⟩, -⟩ := mem_filesBelow_iff.1 hb
  rw [Before, ← hA, ← hB, compare_append] at hlt
  rw [Before, ← hA, ← hB, List.drop_left, List.drop_left]
  exact hlt

/-- **The hashes below a place** are told path by path. -/
theorem hashesBelow_eq_iff :
    t.hashesBelow d = u.hashesBelow e ↔ ∀ names, t.hashBelow? d names = u.hashBelow? e names := by
  constructor
  · intro h names
    refine Option.ext fun hash => ?_
    rw [← mem_hashesBelow_iff, h, mem_hashesBelow_iff]
  · intro h
    refine List.Pairwise.eq_of_mem_iff (pairwise_hashesBelow t d) (pairwise_hashesBelow u e) fun file => ?_
    rw [mem_hashesBelow_iff, mem_hashesBelow_iff, h]

theorem listing_eq_flatMap (t : FileTree) (d : Place) :
    listing d (t.filesBelow d) = (t.hashesBelow d).flatMap fun file => hashLine (listedPath file.1) file.2 := by
  rw [listing, hashesBelow, List.flatMap_map]
  exact List.flatMap_congr fun file _ => listingLine_eq _ _

/-- The entries of a listing have listable names and hashes in digits. -/
theorem isListable_of_mem (h : t.IsListableBelow d) {file : Place × String} (hfile : file ∈ t.hashesBelow d) :
    IsListable file.1 ∧ '\n' ∉ file.2.toList := by
  obtain ⟨bytes, hbytes, hhash⟩ := Option.map_eq_some_iff.1 (mem_hashesBelow_iff.1 hfile)
  have hat := bytesBelow?_eq_some_iff.1 hbytes
  refine ⟨fun name hname => ⟨?_, h _ _ hat name hname⟩, hhash ▸ lineFeed_not_mem_hexHash _⟩
  exact t.isName_of_at? hat name (List.mem_append_right _ hname)

end FileTree

/-- **Listings come apart**: lines of listable paths are those of the same files if they are the same bytes. -/
theorem flatMap_hashLine_inj {files files' : List (Place × String)}
    (h : ∀ file ∈ files, IsListable file.1 ∧ '\n' ∉ file.2.toList)
    (h' : ∀ file ∈ files', IsListable file.1 ∧ '\n' ∉ file.2.toList)
    (heq : (files.flatMap fun file => hashLine (listedPath file.1) file.2) =
      files'.flatMap fun file => hashLine (listedPath file.1) file.2) : files = files' := by
  have hne : ∀ path hash r, hashLine path hash ++ r ≠ [] := by simp [hashLine]
  induction files generalizing files' with
  | nil =>
    cases files' with
    | nil => rfl
    | cons file' files' => exact absurd heq.symm (hne _ _ _)
  | cons file files ih =>
    cases files' with
    | nil => exact absurd heq (hne _ _ _)
    | cons file' files' =>
      obtain ⟨⟨hpath, hhash⟩, hfiles⟩ := List.forall_mem_cons.1 h
      obtain ⟨⟨hpath', hhash'⟩, hfiles'⟩ := List.forall_mem_cons.1 h'
      rw [List.flatMap_cons, List.flatMap_cons] at heq
      obtain ⟨hp, hh, hr⟩ := hashLine_append_inj hpath.zero_not_mem hpath'.zero_not_mem hhash hhash' heq
      rw [ih hfiles hfiles' hr, Prod.ext (hpath.listedPath_inj hpath' hp) hh]

namespace FileTree

variable {t u : FileTree} {d e : Place}

/-- **Two listings are the same exactly if the same paths have the same hashes.** -/
theorem listing_eq_iff (ht : t.IsListableBelow d) (hu : u.IsListableBelow e) :
    listing d (t.filesBelow d) = listing e (u.filesBelow e) ↔
      ∀ names, t.hashBelow? d names = u.hashBelow? e names := by
  rw [← hashesBelow_eq_iff, listing_eq_flatMap, listing_eq_flatMap]
  refine ⟨fun h => ?_, fun h => by rw [h]⟩
  exact flatMap_hashLine_inj (fun _ hfile => isListable_of_mem ht hfile) (fun _ hfile => isListable_of_mem hu hfile) h

/-! ## Digests -/

/-- The texts that are hashed for a digest: the bytes of each file, and the listing. -/
def hashedTexts (t : FileTree) (d : Place) : List (List UInt8) :=
  listing d (t.filesBelow d) :: (t.filesBelow d).map fun file => file.2.data.toList

/-- **No two of the texts have one hash.** -/
def IsCollisionFree (texts : List (List UInt8)) : Prop :=
  ∀ a ∈ texts, ∀ b ∈ texts, Blake3.hexHash a = Blake3.hexHash b → a = b

theorem mem_hashedTexts {names : Place} {bytes : ByteArray} (h : t.bytesBelow? d names = some bytes) :
    bytes.data.toList ∈ t.hashedTexts d :=
  List.mem_cons_of_mem _ (List.mem_map.2
    ⟨_, mem_filesBelow_iff.2 ⟨List.prefix_append _ _, bytesBelow?_eq_some_iff.1 h⟩, rfl⟩)

/-- Where no hashes collide, files with the same hashes are the same. -/
theorem hashBelow?_eq_iff (hfree : IsCollisionFree (t.hashedTexts d ++ u.hashedTexts e)) (names : Place) :
    t.hashBelow? d names = u.hashBelow? e names ↔ t.bytesBelow? d names = u.bytesBelow? e names := by
  refine ⟨fun h => ?_, fun h => by rw [hashBelow?, h, hashBelow?]⟩
  unfold hashBelow? at h
  cases ht : t.bytesBelow? d names with
  | none =>
    rw [ht, Option.map_none] at h
    exact (Option.map_eq_none_iff.1 h.symm).symm
  | some bytes =>
    rw [ht, Option.map_some] at h
    obtain ⟨bytes', hu, hhash⟩ := Option.map_eq_some_iff.1 h.symm
    have hsame := hfree _ (List.mem_append_right _ (mem_hashedTexts hu)) _
      (List.mem_append_left _ (mem_hashedTexts ht)) hhash
    rw [hu, ByteArray.ext (Array.toList_inj.1 hsame)]

theorem digest_of_find {p : FilePath} {x : Entry} (h : t.find p = .ok (d, x)) :
    t.digest p = .ok (Blake3.hexHash (listing d (t.filesBelow d))) := by
  rw [digest, h]
  rfl

/-- **A digest tells which files are below a path.**  In whatever order directories list their names, what is
hashed for the digest is the listing of a walk.  Where no name has a backslash (or a zero byte, which no name of a
file has), two such listings are the same exactly if the same paths lead to files with the same hashes; so unless
two of the texts that are hashed have one hash, the digests are equal exactly if the files are. -/
theorem digest_tells_files {p q : FilePath} {x y : Entry} (hp : t.find p = .ok (d, x)) (hq : u.find q = .ok (e, y))
    (ht : t.IsListableBelow d) (hu : u.IsListableBelow e) {listed listed' : Place → List String}
    (hlisted : t.IsListing listed) (hlisted' : u.IsListing listed') :
    t.digest p = .ok (Blake3.hexHash (listing d (t.walk listed d))) ∧
      (listing d (t.walk listed d) = listing e (u.walk listed' e) ↔
        ∀ names, t.hashBelow? d names = u.hashBelow? e names) ∧
      (IsCollisionFree (t.hashedTexts d ++ u.hashedTexts e) →
        (t.digest p = u.digest q ↔ ∀ names, t.bytesBelow? d names = u.bytesBelow? e names)) := by
  rw [walk_eq_filesBelow hlisted, walk_eq_filesBelow hlisted', digest_of_find hp, digest_of_find hq]
  refine ⟨rfl, listing_eq_iff ht hu, fun hfree => ?_⟩
  simp only [← hashBelow?_eq_iff hfree, ← listing_eq_iff ht hu, Except.ok.injEq]
  refine ⟨fun h => ?_, fun h => by rw [h]⟩
  exact hfree _ (List.mem_append_left _ List.mem_cons_self) _ (List.mem_append_right _ List.mem_cons_self) h

/-- The names below a place are listable if those of all places are. -/
theorem isListableBelow_of_keys (h : (t.entries.keys.flatten.all fun name =>
    !name.toList.contains '\x00' && !name.toList.contains '\\') = true) (d : Place) : t.IsListableBelow d := by
  intro names e hat name hname
  have hroot : d ++ names ≠ [] := List.append_ne_nil_of_right_ne_nil _ (List.ne_nil_of_mem hname)
  rw [t.at?_of_ne hroot] at hat
  have hmem : d ++ names ∈ t.entries.keys :=
    Std.ExtTreeMap.mem_keys.2 (Std.ExtTreeMap.mem_iff_isSome_getElem?.2 (by rw [hat]; rfl))
  have hkept := List.all_eq_true.1 h name (List.mem_flatten.2 ⟨_, hmem, List.mem_append_right _ hname⟩)
  simpa using hkept

/-- A pool of two files, one of them in a directory. -/
def poolTree (file : String) : FileTree := .ofTexts [(["pool", "a", "x.rs"], "x"), (["pool", file], "y")]

/-- A file under another name makes another listing, whatever the order that directories are listed in. -/
theorem digest_tells_files_renamed :
    (poolTree "a.rs").find ⟨"/pool"⟩ = .ok (["pool"], .directory) ∧
    (poolTree "b.rs").find ⟨"/pool"⟩ = .ok (["pool"], .directory) ∧
    listing ["pool"] ((poolTree "a.rs").walk (fun place => ((poolTree "a.rs").namesIn place).reverse) ["pool"]) ≠
      listing ["pool"] ((poolTree "b.rs").walk (fun place => ((poolTree "b.rs").namesIn place).reverse) ["pool"]) := by
  have hfirst : (poolTree "a.rs").find ⟨"/pool"⟩ = .ok (["pool"], .directory) := by decide +kernel
  have hsecond : (poolTree "b.rs").find ⟨"/pool"⟩ = .ok (["pool"], .directory) := by decide +kernel
  have hlists := (digest_tells_files hfirst hsecond (isListableBelow_of_keys (by decide +kernel) _)
    (isListableBelow_of_keys (by decide +kernel) _) (isListing_reverse _) (isListing_reverse _)).2.1
  refine ⟨hfirst, hsecond, fun hsame => ?_⟩
  -- no file is called so in the first pool
  have hhash := hlists.1 hsame ["b.rs"]
  have hnone : (poolTree "a.rs").bytesBelow? ["pool"] ["b.rs"] = none := by decide +kernel
  have hsome : ((poolTree "b.rs").bytesBelow? ["pool"] ["b.rs"]).isSome = true := by decide +kernel
  rw [hashBelow?, hashBelow?, hnone, Option.map_none] at hhash
  rw [Option.map_eq_none_iff.1 hhash.symm] at hsome
  exact absurd hsome (by decide)

end FileTree

end ModelPool
