import Multicast.CommandLine.Arguments
import Multicast.Settings.Printer

/-! What the commands show. -/
namespace Multicast.CommandLine

def release : String := "0.3.0"

namespace Page

/-- The name under which a command shows its version. -/
def name : Page → String
  | .top => "cohort"
  | .version => "cohort-version"
  | .config => "cohort-config"
  | .display => "cohort-config-show"
  | .run => "cohort-run"
  | .usage => "cohort-help"
  | .configUsage => "cohort-config-help"

/-- How the command for help is used, in the group of this name. -/
def usageHelp (group : String) : List String := [
  "Print this message or the help of the given subcommand(s)",
  "",
  "Usage: " ++ group ++ " help [COMMAND]...",
  "",
  "Arguments:",
  "  [COMMAND]...  Print help for the subcommand(s)"]

/-- How a command is used. -/
def help : Page → List String
  | .top => [
    "Cohort - FIFO and causal multicast with group membership",
    "",
    "Usage: cohort <COMMAND>",
    "",
    "Commands:",
    "  version  Show version information",
    "  config   Configuration commands",
    "  run      Run a group member, reading commands from stdin",
    "  help     Print this message or the help of the given subcommand(s)",
    "",
    "Options:",
    "  -h, --help     Print help",
    "  -V, --version  Print version"]
  | .version => [
    "Show version information",
    "",
    "Usage: cohort version",
    "",
    "Options:",
    "  -h, --help     Print help",
    "  -V, --version  Print version"]
  | .config => [
    "Configuration commands",
    "",
    "Usage: cohort config <COMMAND>",
    "",
    "Commands:",
    "  show  Show the effective configuration",
    "  help  Print this message or the help of the given subcommand(s)",
    "",
    "Options:",
    "  -h, --help     Print help",
    "  -V, --version  Print version"]
  | .display => [
    "Show the effective configuration",
    "",
    "Usage: cohort config show [OPTIONS]",
    "",
    "Options:",
    "  -p, --project-dir <PROJECT_DIR>  Directory holding cohort.toml and cohort.local.toml " ++
      "[default: .]",
    "  -f, --format <FORMAT>            Output format (text, toml, json) [default: text]",
    "  -h, --help                       Print help",
    "  -V, --version                    Print version"]
  | .run => [
    "Run a group member, reading commands from stdin",
    "",
    "Usage: cohort run [OPTIONS]",
    "",
    "Options:",
    "  -p, --project-dir <PROJECT_DIR>  Directory holding cohort.toml and cohort.local.toml " ++
      "[default: .]",
    "      --port <PORT>                Listen port, overriding the configuration " ++
      "(0 picks a free port)",
    "      --incarnation <INCARNATION>  Incarnation number, overriding the configuration",
    "  -h, --help                       Print help",
    "  -V, --version                    Print version"]
  | .usage => usageHelp "cohort"
  | .configUsage => usageHelp "cohort config"

end Page

def versionPage : List String := [
  "cohort " ++ release,
  "",
  "FIFO and causal multicast with group membership.",
  "",
  "Build info:",
  "  Target: x86_64",
  "  OS:     linux"]

/-- The members of valid settings, a line each. -/
def memberLines (s : Settings) : List String :=
  if s.group.join then ["  Join: waiting for a state transfer"]
  else
    match s.initialMembers with
    | .ok members => members.map fun p => "  Member: " ++ p.text
    | .error _ => []

def settingsPage (s : Settings) : List String :=
  let limit := (s.fifo.maxBufferedPerSource.map toString).getD "unbounded"
  ["Cohort Configuration", "====================", "",
    "Node:",
    "  Identity: " ++ s.here.text, "",
    "Group:"] ++ memberLines s ++ ["",
    "Transport:",
    "  Max frame size: " ++ toString s.transport.maxFrameSize,
    "  Buffer size: " ++ toString s.transport.bufferSize,
    "  No delay: " ++ toString s.transport.nodelay, "",
    "FIFO:",
    "  Max buffered per source: " ++ limit, "",
    "Causal:",
    "  Max outstanding: " ++ toString s.causal.maxOutstanding,
    "  Early-ack capacity: " ++ toString s.causal.earlyAckCapacity, "",
    "Runtime:",
    "  Command queue capacity: " ++ toString s.runtime.commandQueueCapacity,
    "  Poll interval: " ++ toString s.runtime.pollIntervalMs ++ "ms",
    "  Reconnect interval: " ++ toString s.runtime.reconnectIntervalMs ++ "ms"]

/-- Settings in one of the formats. Any other word stands for plain text. -/
def settingsAs (s : Settings) (format : String) : List String :=
  match format with
  | "json" => [s.toJson]
  | "toml" => [s.toToml]
  | _ => settingsPage s

end Multicast.CommandLine
