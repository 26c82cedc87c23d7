import Gazette.Blog.Store

/-!
# The records of a new blog

The authors, posts, comments and replies that a blog can start with.  The ids of the comments and
replies are random identifiers, so the blog is made from four of these.
-/

namespace Gazette.Seed

/-- A number of 128 bits as an identifier: groups of 8, 4, 4, 4 and 12 upper-case hexadecimal digits
with hyphens between them.  The version and the variant have fixed places in it. -/
def identifier (bits : Nat) : String :=
  let ds := (List.range 32).map fun i => Nat.digitChar (bits / Nat.pow 16 (31 - i) % 16)
  let ds := (ds.set 12 '4').set 16 (Nat.digitChar (8 + bits / Nat.pow 16 15 % 4))
  let group (start size : Nat) := (ds.drop start).take size
  String.ofList ((group 0 8 ++ '-' :: group 8 4 ++ '-' :: group 12 4 ++ '-' :: group 16 4 ++
    '-' :: group 20 12).map Char.toUpper)

/-- Whether a text is an identifier of random bits: digits in groups, of which the first ones of the
third and fourth group tell the version and the variant. -/
def isIdentifier (id : String) : Bool :=
  let isUpperHex := fun (c : Char) => ('0' ≤ c && c ≤ '9') || ('A' ≤ c && c ≤ 'F')
  let fits := fun (i : Nat) (c : Char) =>
    if i = 8 || i = 13 || i = 18 || i = 23 then c = '-'
    else if i = 14 then c = '4'
    else if i = 19 then c = '8' || c = '9' || c = 'A' || c = 'B'
    else isUpperHex c
  id.length = 36 && (id.toList.zipIdx.all fun (c, i) => fits i c)

theorem isIdentifier_groups {digit : Nat → Char} {variant : Char}
    (hdigit : ∀ i, ('0' ≤ digit i ∧ digit i ≤ '9') ∨ ('A' ≤ digit i ∧ digit i ≤ 'F'))
    (hvariant : variant ∈ ['8', '9', 'A', 'B']) :
    let ds := (((List.range 32).map digit).set 12 '4').set 16 variant
    let group (start size : Nat) := (ds.drop start).take size
    isIdentifier (String.ofList (group 0 8 ++ '-' :: group 8 4 ++ '-' :: group 12 4 ++
      '-' :: group 16 4 ++ '-' :: group 20 12)) := by
  have hrange : List.range 32 = [0, 1, 2, 3, 4, 5, 6, 7, 8, 9, 10, 11, 12, 13, 14, 15, 16, 17, 18,
    19, 20, 21, 22, 23, 24, 25, 26, 27, 28, 29, 30, 31] := by rfl
  intro ds group
  simp only [ds, group, hrange, isIdentifier, String.toList_ofList, String.length_ofList]
  simp only [List.mem_cons, List.not_mem_nil, or_false, ← or_assoc] at hvariant
  simp [List.zipIdx_cons, hdigit, hvariant]

/-- Identifiers are made as they are recognized. -/
theorem isIdentifier_identifier (bits : Nat) : isIdentifier (identifier bits) := by
  have hdigit : ∀ k < 16, ('0' ≤ (Nat.digitChar k).toUpper ∧ (Nat.digitChar k).toUpper ≤ '9') ∨
      ('A' ≤ (Nat.digitChar k).toUpper ∧ (Nat.digitChar k).toUpper ≤ 'F') := by decide
  have hvariant : ∀ k < 4, (Nat.digitChar (8 + k)).toUpper ∈ ['8', '9', 'A', 'B'] := by decide
  have hmarks : '-'.toUpper = '-' ∧ '4'.toUpper = '4' := by decide
  rw [identifier]
  simp only [List.map_append, List.map_cons, List.map_take, List.map_drop, List.map_set,
    List.map_map, hmarks]
  exact isIdentifier_groups (fun i => hdigit _ (Nat.mod_lt _ (by decide)))
    (hvariant _ (Nat.mod_lt _ (by decide)))

/-- The authors of a new blog. -/
def authors : List Author :=
  [⟨"seabaylea", "Chris Bailey", some "@Chris__Bailey"⟩,
    ⟨"eeckstein", "Erik Eckstein", some "@eeckstein"⟩,
    ⟨"tkremenek", "Ted Kremenek", some "@tkremenek"⟩]

/-- The posts of a new blog, all with one date. -/
def posts (date : Instant) : List Post := [
  ⟨"0176413761b289e6d64c2c14a758c1c7", "seabaylea", some .server,
    "Since Swift became available on Linux there has been a huge amount of interest in using " ++
    "Swift on the server, resulting in the emergence of a number of Web Frameworks, including " ++
    "Kitura, Vapor, Perfect, and Zewo, along with many others. As an important part of the " ++
    "Swift ecosystem, and one that we are keen to foster, we are today announcing the formation " ++
    "of the Server APIs work group.\n\nThe work group provides the framework for participants " ++
    "in the the community with an interest in building server applications and frameworks to " ++
    "come together to work on providing new Swift APIs. These APIs will provide low level " ++
    "“server” functions as the basic building blocks for developing server-side capabilities, " ++
    "removing the reliance on interfacing with generally platform specific C libraries for " ++
    "these functions. This will enable more developers to create frameworks and server " ++
    "applications using pure-Swift code, without the need to also have systems programming " ++
    "skills and knowledge of multiple platforms.\n\nThe work group will initially be looking at " ++
    "APIs for networking, security, and HTTP/WebSocket parsing, with the goal of making it " ++
    "possible for anyone to build a simple, secure, HTTP server, or to start to build other " ++
    "server frameworks like pub/sub message brokers.\n\nFor more information, take a look at " ++
    "the Server APIs project page.",
    date,
    "Since Swift became available on Linux there has been a huge amount of interest in using " ++
    "Swift on the server...",
    "Server APIs Work Group"⟩,
  ⟨"03390abb5570ce03ae524397d215713b", "eeckstein", some .optimization,
    "Whole-module optimization is an optimization mode of the Swift compiler. The performance " ++
    "win of whole-module optimization heavily depends on the project, but it can be up to two " ++
    "or even five times.\n\nWhole-module optimization can be enabled with the " ++
    "-whole-module-optimization (or -wmo) compiler flag, and in Xcode 8 it is turned on by " ++
    "default for new projects. Also the Swift Package Manager compiles with whole-module " ++
    "optimizations in release builds.\n\nSo what is it about? Let’s first look at how the " ++
    "compiler works without whole-module optimizations.",
    date,
    "Whole-module optimization is an optimization mode of the Swift compiler. The performance " ++
    "win of whole-module optimization heavily depends on the project, but it can be up to two " ++
    "or even five times...",
    "Whole-Module Optimization in Swift 3"⟩,
  ⟨"0be4bea0330ccb5ecf781a9f69a64bc8", "tkremenek", some .release,
    "Swift 3.0, the first major release of Swift since it was open-sourced, is now officially " ++
    "released! Swift 3 is a huge release containing major improvements and refinements to the " ++
    "core language and Standard Library, major additions to the Linux port of Swift, and the " ++
    "first official release of the Swift Package Manager.",
    date,
    "Swift 3.0, the first major release of Swift since it was open-sourced, is now officially " ++
    "released!..",
    "Swift 3.0 Released!"⟩]

/-- The comments of a new blog, under two ids. -/
def comments (first second : String) : List Comment :=
  [⟨first, "This is a very good blog post", "tkremenek", none⟩,
    ⟨second, "Keep up the good work", "seabaylea", none⟩]

/-- The replies of a new blog, under two ids. -/
def replies (first second : String) : List Comment :=
  [⟨first, "Thank You!", "eeckstein", none⟩,
    ⟨second, "If you need more information, just contact me.", "eeckstein", none⟩]

/-- The ids of the comments and replies of a new blog. -/
structure Ids where
  firstComment : String
  secondComment : String
  firstReply : String
  secondReply : String

/-- The ids made from four numbers of 128 bits. -/
def Ids.ofBits (a b c d : Nat) : Ids :=
  ⟨identifier a, identifier b, identifier c, identifier d⟩

/-- The store of a new blog, whose posts are dated by one reading of the clock. -/
def store (ids : Ids) (clock : Clock) : Store where
  table := Store.tableOf authors
  posts := posts clock.now
  comments := comments ids.firstComment ids.secondComment
  replies := replies ids.firstReply ids.secondReply
  clock := clock.tick

/-- The comments and replies of a new blog have identifiers as their ids. -/
theorem isIdentifier_of_mem_store {a b c d : Nat} {clock : Clock} :
    ∀ comment ∈ (store (.ofBits a b c d) clock).comments ++ (store (.ofBits a b c d) clock).replies,
      isIdentifier comment.id := by
  simp only [store, comments, replies, Ids.ofBits, List.cons_append, List.nil_append,
    List.forall_mem_cons]
  exact ⟨isIdentifier_identifier a, isIdentifier_identifier b, isIdentifier_identifier c,
    isIdentifier_identifier d, List.forall_mem_nil _⟩

end Gazette.Seed
