import MarkdownIndex.Cli.Run
import MarkdownIndex.Config.Codec
import MarkdownIndex.Document
import MarkdownIndex.Embedding.Client
import MarkdownIndex.Embedding.Failure
import MarkdownIndex.Embedding.Hashing
import MarkdownIndex.Embedding.Message
import MarkdownIndex.Health
import MarkdownIndex.Http.EmbeddingApi
import MarkdownIndex.Http.HealthApi
import MarkdownIndex.Main
import MarkdownIndex.Markdown.Title
import MarkdownIndex.Proofs.Chunk.Fence
import MarkdownIndex.Proofs.Findable
import MarkdownIndex.Proofs.Ingest.Race
import MarkdownIndex.Proofs.Ingest.Retry
import MarkdownIndex.Proofs.Store.Holding
import MarkdownIndex.Proofs.Watch.Edits
import MarkdownIndex.Remote
import MarkdownIndex.Scan
import MarkdownIndex.Search
import MarkdownIndex.Search.Hit
import MarkdownIndex.Search.Merge
import MarkdownIndex.Stats
import MarkdownIndex.Store.Memory
import MarkdownIndex.Store.Sql
import MarkdownIndex.Task
import MarkdownIndex.Watch
import MarkdownIndex.Proofs.Ingest.Settle
import MarkdownIndex.Proofs.Files.Flat
import MarkdownIndex.Proofs.Ingest.Turns
import MarkdownIndex.Proofs.Ingest.Passes
import MarkdownIndex.Proofs.Http.Search
import MarkdownIndex.Proofs.Decimal.Range
import MarkdownIndex.Proofs.Decimal.Shortest
import MarkdownIndex.Proofs.Text.Utf8
import MarkdownIndex.Proofs.Json.Number
import MarkdownIndex.Proofs.Json.Reading
import MarkdownIndex.Proofs.Embedding.Message
import MarkdownIndex.Proofs.Embedding.Service
import MarkdownIndex.Proofs.Store.Ledger
import MarkdownIndex.Proofs.Remote.Request
import MarkdownIndex.Proofs.Remote.Site
import MarkdownIndex.Proofs.Remote.Token
import MarkdownIndex.Proofs.Watch.Handed
import MarkdownIndex.Proofs.Chunk.Block
import MarkdownIndex.Proofs.Ingest.Exit
import MarkdownIndex.Proofs.Search.Merge
import MarkdownIndex.Proofs.Markdown.Overlap
import MarkdownIndex.Proofs.Chunk.Length
import MarkdownIndex.Proofs.Markdown.Title
import MarkdownIndex.Proofs.Ingest.Batch
import MarkdownIndex.Proofs.Chunk.Count
import MarkdownIndex.Proofs.Embedding.Retry
import MarkdownIndex.Proofs.Watch.Differences
import MarkdownIndex.Proofs.Scan
import MarkdownIndex.Proofs.Chunk.Record
import MarkdownIndex.Proofs.Files.Spelling
import MarkdownIndex.Proofs.Ingest.Spelling
import MarkdownIndex.Proofs.Http.Percent
import MarkdownIndex.Proofs.Http.Url
import MarkdownIndex.Proofs.Remote.Notes
import MarkdownIndex.Proofs.Store.Metadata
import MarkdownIndex.Proofs.Caseless
import MarkdownIndex.Proofs.Config
