import PromptTemplate.Json.Reader
import PromptTemplate.Command.Build
import PromptTemplate.Command.Describe
import PromptTemplate.Template.Reader
import PromptTemplate.Expansion.Choices
import PromptTemplate.Expansion.Session
import PromptTemplate.Expansion.Enumeration
import PromptTemplate.Grammar.Shared
import PromptTemplate.Generation.Generator
import PromptTemplate.Files.Tree
import PromptTemplate.Wildcard.Collections
import PromptTemplate.Wildcard.Directory
import PromptTemplate.Settings
import PromptTemplate.Settings.Assignments
import PromptTemplate.Log
import PromptTemplate.Log.Instant
import PromptTemplate.CommandLine.Arguments
import PromptTemplate.CommandLine.Generate
import PromptTemplate.CommandLine.Program
import PromptTemplate.Expansion.ScopeTable
import PromptTemplate.Main
import PromptTemplate.Generation.Asking
import PromptTemplate.Proofs.Expansion.Rotation
import PromptTemplate.Proofs.Template.Parsing
import PromptTemplate.Proofs.Template.ReadBack
import PromptTemplate.Proofs.Template.Errors
import PromptTemplate.Proofs.Expansion.Cycles
import PromptTemplate.Proofs.Expansion.Ending
import PromptTemplate.Proofs.Expansion.Support
import PromptTemplate.Proofs.Expansion.Writes
import PromptTemplate.Proofs.Expansion.Kept
import PromptTemplate.Proofs.Generation.Calls
import PromptTemplate.Proofs.Generation.Prompts
import PromptTemplate.Proofs.Generation.Renumbered
import PromptTemplate.Proofs.Generation.Resetting
import PromptTemplate.Proofs.Template.Origins
import PromptTemplate.Proofs.Generation.Rotations
import PromptTemplate.Proofs.Expansion.Failures
import PromptTemplate.Proofs.Grammar.Sharing
import PromptTemplate.Proofs.Template.Comments
import PromptTemplate.Proofs.CommandLine.Coverage
import PromptTemplate.Proofs.Expansion.Prefixes
import PromptTemplate.Proofs.Template.Headed.Blocks
import PromptTemplate.Proofs.Expansion.Repeats
import PromptTemplate.Proofs.Expansion.Selections
import PromptTemplate.Proofs.Wildcard.Endings
import PromptTemplate.Proofs.Template.Inlined
import PromptTemplate.Proofs.Expansion.Exchanging
import PromptTemplate.Proofs.Expansion.Deepening
import PromptTemplate.Proofs.Expansion.Sequences
import PromptTemplate.Proofs.Template.Undirected
import PromptTemplate.Proofs.Wildcard.Confined
import PromptTemplate.Proofs.Wildcard.Expressions
import PromptTemplate.Proofs.Wildcard.Unions
import PromptTemplate.Proofs.Expansion.ScopeViews
import PromptTemplate.Proofs.Expansion.SharedScopes
import PromptTemplate.Proofs.Expansion.Reassigning
import PromptTemplate.Proofs.Expansion.Proportions
import PromptTemplate.Proofs.Command.Described
import PromptTemplate.Proofs.CommandLine.AllOrNothing
