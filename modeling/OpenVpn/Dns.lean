import Mathlib.Data.List.Perm.Basic

/-! The DNS server list of `dns.c`. The servers of `--dns server` options are kept in a list
ordered by priority: `dns_server_get` finds the entry of a priority or allocates a zeroed one at its
place. Before a pull the static list is put aside (`dns_options_preprocess_pull`), the pulled
servers are collected in a fresh list, and `dns_options_postprocess_pull` merges the static ones
back in, a pulled server overriding the static one of the same priority. The linked lists are lists
of the `struct dns_server` objects, each with the allocation it lives in; the pointer-to-pointer
cursors of the source become the recursion on the list that follows it. -/

namespace OpenVpn

/-- `struct dns_server`: the allocation `obj` it lives in, its `priority`, and `addr_count`, which
`dns_options_verify` reads. -/
structure DnsServer where
  obj : Nat
  priority : Int
  addrCount : Nat
  deriving DecidableEq, Repr

/-- `ALLOC_OBJ_CLEAR_GC` of a `struct dns_server` as the `gc`-th object of the arena, with its
priority set. -/
def DnsServer.fresh (gc : Nat) (priority : Int) : DnsServer := ⟨gc, priority, 0⟩

/-- `dns_server_get(entry, priority, gc)` on the list at `*entry`, with an arena that has handed out
`gc` objects: the list, the entry returned, and the arena after the call. -/
def dnsServerGet (priority : Int) (gc : Nat) : List DnsServer → List DnsServer × DnsServer × Nat
  | [] => ([.fresh gc priority], .fresh gc priority, gc + 1)
  | obj :: rest =>
      if obj.priority > priority then
        (.fresh gc priority :: obj :: rest, .fresh gc priority, gc + 1)
      else if obj.priority = priority then (obj :: rest, obj, gc)
      else
        let (rest, entry, gc) := dnsServerGet priority gc rest
        (obj :: rest, entry, gc)

/-- The DNS part of `struct dns_options` that the server list functions use; `gc` counts the
objects its arena has handed out. -/
structure DnsOptions where
  serversPrepull : List DnsServer
  servers : List DnsServer
  gc : Nat
  deriving DecidableEq, Repr

/-- The `--dns server PRIORITY ...` option of `add_option`, up to the entry it fills in:
`dns_server_get(&options->dns_options.servers, priority, &options->dns_options.gc)`. -/
def dnsServerOption (o : DnsOptions) (priority : Int) : DnsOptions :=
  let (servers, _, gc) := dnsServerGet priority o.gc o.servers
  { o with servers, gc }

/-- `dns_options_verify`: every server of the list in use has an address. -/
def dnsOptionsVerify (o : DnsOptions) : Bool :=
  let servers := if o.servers ≠ [] then o.servers else o.serversPrepull
  servers.all fun server => server.addrCount ≠ 0

/-- `dns_options_preprocess_pull`. -/
def dnsOptionsPreprocessPull (o : DnsOptions) : DnsOptions :=
  { o with serversPrepull := o.servers, servers := [] }

/-- The loop of `dns_options_postprocess_pull` on the pulled list at `*entry` and the static list
at `server_pp`, with the append of the static rest after it. -/
def dnsPostprocessPullMerge : List DnsServer → List DnsServer → List DnsServer
  | [], serverPp => serverPp
  | server :: rest, [] => server :: rest
  | server :: rest, serverPp :: restPp =>
      -- merge static server in front of pulled one
      if server.priority > serverPp.priority then
        serverPp :: dnsPostprocessPullMerge (server :: rest) restPp
      -- pulled server overrides static one
      else if server.priority = serverPp.priority then
        server :: dnsPostprocessPullMerge rest restPp
      else server :: dnsPostprocessPullMerge rest (serverPp :: restPp)

/-- `dns_options_postprocess_pull`. -/
def dnsOptionsPostprocessPull (o : DnsOptions) : DnsOptions :=
  { o with servers := dnsPostprocessPullMerge o.servers o.serversPrepull, serversPrepull := [] }

end OpenVpn
